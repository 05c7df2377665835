import EspAdf.Verified.Machine

/-!
# `audio_pipeline.c`: registering, linking, breaking up and relinking

A pipeline keeps two lists: `el_list`, the registered elements, and
`rb_list`, the ring buffers that connect them.  An element belongs to the
caller, so its tag and its input and output stay what they are when the
pipeline forgets about it; all elements are therefore part of the state.

A ring buffer handle is the number of the `rb_create` that made it, so two
handles are equal when they denote the same ring buffer, destroyed or not.
`rings` records for each of them how often it was destroyed and reset; its
contents are the subject of `RingBuf`.

The element's `in` and `out` are unions: a ring buffer or a callback.  Calling
the setters with `NULL` changes nothing.
-/

namespace EspAdf.Ports.AudioPipeline

open EspAdf.Verified

/-! ## Data -/

abbrev ElHandle := Nat

abbrev RbHandle := Nat

/-- `read_type` and `in`, or `write_type` and `out`. -/
inductive Io where
  | rb (handle : Option RbHandle)
  | cb
  deriving DecidableEq, Repr

/-- What the pipeline reads and writes of a `struct audio_element`. -/
structure Element where
  tag : Option String
  input : Io
  output : Io
  outRbSize : Int
  deriving DecidableEq, Repr

/-- `audio_element_item_t`. -/
structure ElItem where
  el : ElHandle
  linked : Bool
  keptCtx : Bool
  deriving DecidableEq, Repr

/-- `ringbuf_item_t`. -/
structure RbItem where
  rb : RbHandle
  hostEl : ElHandle
  linked : Bool
  keptCtx : Bool
  deriving DecidableEq, Repr

/-- A ring buffer made by `rb_create(size, 1)`. -/
structure Ring where
  size : Int
  destroyed : Nat
  resets : Nat
  deriving DecidableEq, Repr

/-- `struct audio_pipeline` with the elements and the ring buffers. -/
structure Pipeline where
  elList : List ElItem
  rbList : List RbItem
  linked : Bool
  els : ElHandle → Element
  rings : List Ring

def ESP_OK : Int := 0
def ESP_FAIL : Int := -1
def ESP_ERR_NO_MEM : Int := 0x101

/-- What the allocations of one iteration do: all succeed, or the first that
fails is that of the element item, of the ring buffer, or of its item. -/
inductive Mem where
  | ok
  | noItem
  | noRb
  | noRbItem
  deriving DecidableEq, Repr

/-! ## The elements -/

/-- Whether `strcasecmp` returns zero. -/
def strcasecmp (a b : String) : Bool :=
  a.toList.map Char.toLower == b.toList.map Char.toLower

def Io.handle : Io → Option RbHandle
  | .rb h => h
  | .cb => none

/-- `audio_element_get_input_ringbuf`. -/
def Pipeline.getInputRingbuf (p : Pipeline) (el : ElHandle) :
    Option RbHandle := (p.els el).input.handle

/-- `audio_element_get_output_ringbuf`. -/
def Pipeline.getOutputRingbuf (p : Pipeline) (el : ElHandle) :
    Option RbHandle := (p.els el).output.handle

def Pipeline.updateEl (p : Pipeline) (el : ElHandle)
    (f : Element → Element) : Pipeline :=
  { p with els := Function.update p.els el (f (p.els el)) }

/-- `audio_element_set_input_ringbuf`. -/
def Pipeline.setInputRingbuf (p : Pipeline) (el : ElHandle) :
    Option RbHandle → Pipeline
  | some r => p.updateEl el fun e => { e with input := .rb (some r) }
  | none => p

/-- `audio_element_set_output_ringbuf`. -/
def Pipeline.setOutputRingbuf (p : Pipeline) (el : ElHandle) :
    Option RbHandle → Pipeline
  | some r => p.updateEl el fun e => { e with output := .rb (some r) }
  | none => p

/-- `audio_element_set_tag`. -/
def Pipeline.setTag (p : Pipeline) (el : ElHandle) (tag : Option String) :
    Pipeline := p.updateEl el fun e => { e with tag := tag }

/-! ## The ring buffers -/

/-- `rb_create(audio_element_get_output_ringbuf_size(el), 1)`; the handle is
the number of ring buffers made before. -/
def Pipeline.rbCreate (p : Pipeline) (el : ElHandle) : Pipeline :=
  { p with rings := p.rings ++ [⟨(p.els el).outRbSize, 0, 0⟩] }

/-- Whether there is no new ring buffer: an allocation failed, or `rb_create`
rejects the size. -/
def Pipeline.rbFails (p : Pipeline) (el : ElHandle) (failed : Bool) : Bool :=
  failed || decide ((p.els el).outRbSize < 2)

def rbDestroy (rings : List Ring) (r : RbHandle) : List Ring :=
  rings.modify r fun ring => { ring with destroyed := ring.destroyed + 1 }

def rbReset (rings : List Ring) (r : RbHandle) : List Ring :=
  rings.modify r fun ring => { ring with resets := ring.resets + 1 }

def Pipeline.modifyEl (p : Pipeline) (k : Nat) (f : ElItem → ElItem) :
    Pipeline := { p with elList := p.elList.modify k f }

def Pipeline.modifyRb (p : Pipeline) (k : Nat) (f : RbItem → RbItem) :
    Pipeline := { p with rbList := p.rbList.modify k f }

def Pipeline.insertEl (p : Pipeline) (item : ElItem) : Pipeline :=
  { p with elList := p.elList ++ [item] }

def Pipeline.insertRb (p : Pipeline) (item : RbItem) : Pipeline :=
  { p with rbList := p.rbList ++ [item] }

/-! ## Registering -/

/-- Whether the element's tag is `tag`, for `strcasecmp`. -/
def Pipeline.hasTag (p : Pipeline) (el : ElHandle) (tag : String) : Bool :=
  match (p.els el).tag with
  | some elTag => strcasecmp elTag tag
  | none => false

/-- `audio_pipeline_get_el_item_by_tag`: the place of the item. -/
def Pipeline.getElItemByTag (p : Pipeline) (tag : String) :
    Option (Fin p.elList.length) :=
  p.elList.findFinIdx? fun item => p.hasTag item.el tag

/-- `audio_pipeline_unregister`: removes the first item of the element. -/
def Pipeline.unregister (p : Pipeline) (el : ElHandle) : Pipeline × Int :=
  let p := p.setTag el none
  match p.elList.findFinIdx? fun item => item.el = el with
  | some k => ({ p with elList := p.elList.eraseIdx k }, ESP_OK)
  | none => (p, ESP_FAIL)

/-- `audio_pipeline_register`. -/
def Pipeline.register (p : Pipeline) (el : ElHandle) (name : Option String)
    (mem : Mem) : Pipeline × Int :=
  let p := (p.unregister el).1
  let p := p.setTag el name
  if mem ≠ .ok then (p, ESP_ERR_NO_MEM)
  else (p.insertEl ⟨el, false, false⟩, ESP_OK)

/-- `audio_pipeline_register_more`. -/
def Pipeline.registerMore (mem : Nat → Mem) :
    List ElHandle → Nat → Pipeline → Pipeline × Int
  | [], _, p => (p, ESP_OK)
  | el :: els, i, p =>
      let p := if mem i ≠ .ok then p else p.insertEl ⟨el, true, false⟩
      registerMore mem els (i + 1) p

/-! ## Unlinking -/

/-- Unmark a linked item; the calls of the setters with `NULL` that follow in
the source do nothing. -/
def unlinkItem (item : ElItem) : ElItem :=
  if item.linked then { item with linked := false, keptCtx := false }
  else item

/-- The setters that `audio_pipeline_unlink` calls for a linked item. -/
def Pipeline.unsetRingbufs (p : Pipeline) (item : ElItem) : Pipeline :=
  if item.linked then
    (p.setOutputRingbuf item.el none).setInputRingbuf item.el none
  else p

/-- `audio_pipeline_unlink`. -/
def Pipeline.unlink (p : Pipeline) : Pipeline × Int :=
  if p.linked = false then (p, ESP_OK)
  else
    let p := p.elList.foldl unsetRingbufs p
    ({ p with
      elList := p.elList.map unlinkItem
      rbList := []
      rings := (p.rbList.map RbItem.rb).foldl rbDestroy p.rings
      linked := false }, ESP_OK)

/-! ## Linking -/

/-- The outcome of one iteration: `rb` is the ring buffer that the next
element reads; an error ends the loop. -/
structure Iter where
  p : Pipeline
  rb : Option RbHandle
  err : Int

/-- `for (i = 0; i < link_num; i++)`. -/
def tagLoop (step : Nat → Option RbHandle → String → Pipeline → Iter) :
    List String → Nat → Option RbHandle → Pipeline → Pipeline × Int
  | [], _, _, p => (p, ESP_OK)
  | tag :: tags, i, rb, p =>
      let it := step i rb tag p
      if it.err = ESP_OK then tagLoop step tags (i + 1) it.rb it.p
      else (it.p, it.err)

/-- Set the input of an element that is not the first. -/
def Pipeline.setInputUnlessFirst (p : Pipeline) (i : Nat) (el : ElHandle)
    (rb : Option RbHandle) : Pipeline :=
  if i = 0 then p else p.setInputRingbuf el rb

/-- One iteration of `audio_pipeline_link`. -/
def linkStep (mem : Nat → Mem) (linkNum : Nat) (i : Nat)
    (rb : Option RbHandle) (tag : String) (p : Pipeline) : Iter :=
  match p.getElItemByTag tag with
  | none => ⟨p, rb, ESP_FAIL⟩
  | some k =>
      let el := p.elList[k].el
      let p := p.modifyEl k fun item =>
        { item with linked := true, keptCtx := true }
      if i + 1 = linkNum then ⟨p.setInputRingbuf el rb, rb, ESP_OK⟩
      else
        let p := p.setInputUnlessFirst i el rb
        if p.rbFails el (mem i ≠ .ok) then ⟨p, rb, ESP_ERR_NO_MEM⟩
        else
          let r := p.rings.length
          let p := (p.rbCreate el).insertRb ⟨r, el, true, true⟩
          ⟨p.setOutputRingbuf el (some r), some r, ESP_OK⟩

/-- `audio_pipeline_link`. -/
def Pipeline.link (p : Pipeline) (linkTag : List String) (mem : Nat → Mem) :
    Pipeline × Int :=
  let p := if p.linked then p.unlink.1 else p
  match tagLoop (linkStep mem linkTag.length) linkTag 0 none p with
  | (p, err) =>
      if err = ESP_OK then ({ p with linked := true }, ESP_OK) else (p, err)

/-- `add_rb_to_audio_pipeline`. -/
def Pipeline.addRb (p : Pipeline) (r : RbHandle) (hostEl : ElHandle)
    (mem : Mem) : Pipeline :=
  if mem = .noRbItem then p else p.insertRb ⟨r, hostEl, true, true⟩

/-- The loop of `audio_pipeline_link_more`. -/
def linkMoreLoop (mem : Nat → Mem) :
    List ElHandle → Nat → Option RbHandle → Pipeline → Pipeline × Int
  | [], _, _, p => ({ p with linked := true }, ESP_OK)
  | el :: els, i, rb, p =>
      if mem i = .noItem then (p, ESP_ERR_NO_MEM)
      else
        let p := p.insertEl ⟨el, true, false⟩
        if els = [] then
          linkMoreLoop mem els (i + 1) rb (p.setInputRingbuf el rb)
        else
          let p := p.setInputUnlessFirst i el rb
          if p.rbFails el (mem i = .noRb) then (p, ESP_ERR_NO_MEM)
          else
            let r := p.rings.length
            let p := (p.rbCreate el).addRb r el (mem i)
            linkMoreLoop mem els (i + 1) (some r)
              (p.setOutputRingbuf el (some r))

/-- `audio_pipeline_link_more`. -/
def Pipeline.linkMore (p : Pipeline) (els : List ElHandle)
    (mem : Nat → Mem) : Pipeline × Int :=
  linkMoreLoop mem els 0 none (if p.linked then p.unlink.1 else p)

/-! ## Breaking up -/

/-- What the loop of `audio_pipeline_breakup_elements` works on. -/
structure Breakup where
  rbs : List RbItem
  kept : Bool

/-- The item of the ring buffer that an element writes. -/
def findRb (rbs : List RbItem) (r : RbHandle) : Option (Fin rbs.length) :=
  rbs.findFinIdx? fun item => item.rb = r

def setKept (b : Bool) (item : RbItem) : RbItem := { item with keptCtx := b }

/-- One element item of `audio_pipeline_breakup_elements`; `output` is the
ring buffer the element writes. -/
def breakupItem (keptEl : Option ElHandle) (output : Option RbHandle)
    (item : ElItem) (b : Breakup) : ElItem × Breakup :=
  if item.linked = false then (item, b)
  else if b.kept = false ∧ some item.el ≠ keptEl then
    match b.rbs, output with
    | [], _ => (item, b)
    | _ :: _, none => ({ item with linked := false, keptCtx := false }, b)
    | _ :: _, some r =>
        match findRb b.rbs r with
        | none => (item, b)
        | some k =>
            ({ item with linked := false, keptCtx := false },
              { b with rbs := b.rbs.modify k (setKept false) })
  else
    match output with
    | none => (item, b)
    | some r =>
        match findRb b.rbs r with
        | none => (item, b)
        | some k =>
            ({ item with linked := false, keptCtx := true },
              ⟨b.rbs.modify k (setKept true), false⟩)

def breakupLoop (p : Pipeline) (keptEl : Option ElHandle) :
    List ElItem → Breakup → List ElItem × Breakup
  | [], b => ([], b)
  | item :: items, b =>
      let (item', b') :=
        breakupItem keptEl (p.getOutputRingbuf item.el) item b
      let (items', b'') := breakupLoop p keptEl items b'
      (item' :: items', b'')

/-- Mark a ring buffer that is not kept as free. -/
def freeRb (item : RbItem) : RbItem :=
  if item.keptCtx = false then { item with linked := false } else item

/-- `audio_pipeline_breakup_elements`. -/
def Pipeline.breakupElements (p : Pipeline) (keptEl : Option ElHandle) :
    Pipeline × Int :=
  let (items, b) := breakupLoop p keptEl p.elList ⟨p.rbList, true⟩
  let dropped := (b.rbs.filter fun item => item.keptCtx = false).map RbItem.rb
  ({ p with
    elList := items
    rbList := b.rbs.map freeRb
    rings := dropped.foldl rbReset p.rings
    linked := false }, ESP_OK)

/-! ## Relinking -/

/-- A ring buffer that no element uses. -/
def RbItem.free (item : RbItem) : Bool :=
  item.linked = false ∧ item.keptCtx = false

/-- The ring buffer item that `audio_pipeline_relink` finds for an element: a
kept one is looked up by `host_el`, any other takes the first free one. -/
def Pipeline.findRelink (p : Pipeline) (item : ElItem) :
    Option (Fin p.rbList.length) :=
  if item.keptCtx then p.rbList.findFinIdx? fun rb => rb.hostEl = item.el
  else p.rbList.findFinIdx? RbItem.free

/-- The ring buffer item of the element, if it was found, or a new one. -/
def Pipeline.relinkRb (p : Pipeline) (item : ElItem) :
    Pipeline × Option RbHandle :=
  match p.findRelink item with
  | some k => (p.modifyRb k fun rb => { rb with linked := true },
      some p.rbList[k].rb)
  | none => (p, none)

/-- One iteration of `audio_pipeline_relink`. -/
def relinkStep (mem : Nat → Mem) (linkNum : Nat) (i : Nat)
    (rb : Option RbHandle) (tag : String) (p : Pipeline) : Iter :=
  match p.getElItemByTag tag with
  | none => ⟨p, rb, ESP_FAIL⟩
  | some k =>
      let item := p.elList[k]
      let p := p.modifyEl k fun item => { item with linked := true }
      let (p, cur) := p.relinkRb item
      if i + 1 = linkNum then ⟨p.setInputRingbuf item.el rb, rb, ESP_OK⟩
      else
        match cur with
        | some r =>
            let p := p.setInputUnlessFirst i item.el rb
            ⟨p.setOutputRingbuf item.el (some r), some r, ESP_OK⟩
        | none =>
            if p.rbFails item.el (mem i ≠ .ok) then ⟨p, rb, ESP_ERR_NO_MEM⟩
            else
              let r := p.rings.length
              let p := (p.rbCreate item.el).insertRb ⟨r, item.el, true, false⟩
              let p := p.setInputUnlessFirst i item.el rb
              ⟨p.setOutputRingbuf item.el (some r), some r, ESP_OK⟩

/-- `audio_pipeline_relink`. -/
def Pipeline.relink (p : Pipeline) (linkTag : List String)
    (mem : Nat → Mem) : Pipeline × Int :=
  if p.linked then (p, ESP_FAIL)
  else tagLoop (relinkStep mem linkTag.length) linkTag 0 none p

/-! ## The system -/

inductive Call where
  | register (el : ElHandle) (name : Option String) (mem : Mem)
  | unregister (el : ElHandle)
  | registerMore (els : List ElHandle) (mem : Nat → Mem)
  | link (linkTag : List String) (mem : Nat → Mem)
  | linkMore (els : List ElHandle) (mem : Nat → Mem)
  | unlink
  | breakupElements (keptEl : Option ElHandle)
  | relink (linkTag : List String) (mem : Nat → Mem)

def Pipeline.exec (p : Pipeline) : Call → Pipeline × Int
  | .register el name mem => p.register el name mem
  | .unregister el => p.unregister el
  | .registerMore els mem => Pipeline.registerMore mem els 0 p
  | .link linkTag mem => p.link linkTag mem
  | .linkMore els mem => p.linkMore els mem
  | .unlink => p.unlink
  | .breakupElements keptEl => p.breakupElements keptEl
  | .relink linkTag mem => p.relink linkTag mem

def pipelineMachine : Machine Pipeline Call := ⟨fun p c => some (p.exec c).1⟩

/-- A fresh pipeline: whatever ring buffers the elements have, they exist. -/
structure Fresh (p : Pipeline) : Prop where
  elList : p.elList = []
  rbList : p.rbList = []
  linked : p.linked = false
  rings : ∀ ring ∈ p.rings, ring.destroyed = 0
  input : ∀ el r, p.getInputRingbuf el = some r → r < p.rings.length
  output : ∀ el r, p.getOutputRingbuf el = some r → r < p.rings.length

/-- A pipeline without elements; no element has a ring buffer yet. -/
def bare : Pipeline where
  elList := []
  rbList := []
  linked := false
  els := fun _ => ⟨none, .rb none, .rb none, 8192⟩
  rings := []

theorem fresh_bare : Fresh bare := by
  refine ⟨rfl, rfl, rfl, ?_, ?_, ?_⟩
  · intro ring hring
    cases hring
  · intro el r h
    cases h
  · intro el r h
    cases h

/-- The pipeline after a sequence of calls. -/
def Pipeline.execAll (p : Pipeline) (calls : List Call) : Pipeline :=
  calls.foldl (fun p c => (p.exec c).1) p

theorem run_execAll (p : Pipeline) (calls : List Call) :
    pipelineMachine.run p calls = some (p.execAll calls) := by
  induction calls generalizing p with
  | nil => rfl
  | cons c calls ih =>
      rw [Machine.run_cons]
      exact ih (p.exec c).1

theorem reachable_execAll (p : Pipeline) (calls : List Call) :
    pipelineMachine.Reachable p (p.execAll calls) :=
  Machine.reachable_iff_run.2 ⟨calls, run_execAll p calls⟩

/-- A sequence of admitted calls is a run of admitted steps. -/
theorem reaches_execAll {ok : Call → Prop} (p : Pipeline)
    (calls : List Call) (h : ∀ c ∈ calls, ok c) :
    pipelineMachine.Reaches (fun _ c => ok c) p (p.execAll calls) := by
  induction calls generalizing p with
  | nil => exact .refl
  | cons c calls ih =>
      refine .head ⟨c, h c List.mem_cons_self, rfl⟩ ?_
      exact ih (p.exec c).1 fun d hd => h d (List.mem_cons_of_mem _ hd)

end EspAdf.Ports.AudioPipeline
