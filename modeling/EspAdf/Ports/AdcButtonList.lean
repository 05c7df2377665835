import EspAdf.Ports.AdcButton
import EspAdf.Verified.Blocks

/-!
# `adc_button.c`: the list of channels

`adc_btn_create_list` allocates a node, a level table and the descriptors for
each channel.  When an allocation fails it returns `NULL` without the nodes of
the channels before; it clears a table before it looks whether there is one;
and two of its checks free the node and go on with it.

`adc_btn_create_list_iff` says for which configurations and which failing
allocations the list is complete, or nothing of it is left;
`adc_btn_destroy_list_clean` that a complete list is released as a whole.
-/

namespace EspAdf.Ports.AdcButtonList

open EspAdf.Verified
open EspAdf.Ports.AdcButton (BtnDescription USER_KEY_MAX)

/-! ## Data -/

/-- `adc_arr_t` of the caller.  The level table may be missing; if there is one
it has the `total_steps + 1` levels that are copied. -/
structure AdcArr where
  adcCh : Int
  adcLevelStep : Option (List Int)
  totalSteps : Int
  pressJudgeTime : Int
  size : ∀ table ∈ adcLevelStep, totalSteps + 1 ≤ table.length

def default_step_level : List Int := [0, 683, 1193, 1631, 2090, 2578, 3103]

/-- What is allocated for the channel with an index. -/
inductive Block where
  | node (i : Nat)
  | levelStep (i : Nat)
  | btnDscp (i : Nat)
  deriving DecidableEq, Repr

/-- The blocks of a channel. -/
def blocksOf (i : Nat) : List Block := [.node i, .levelStep i, .btnDscp i]

/-- `adc_btn_list`, with its tables. -/
structure ListNode where
  index : Nat
  adcCh : Int
  totalSteps : Int
  pressJudgeTime : Int
  levelStep : List Int
  btnDscp : List BtnDescription
  deriving DecidableEq

/-- A number of bytes in a `size_t`. -/
def sizeT (n : Int) : Nat := (n % 2 ^ 32).toNat

/-- `sizeof(int)`. -/
def sizeofInt : Nat := 4

/-- `sizeof(btn_decription)`. -/
def sizeofBtn : Nat := 12

/-! ## The heap -/

structure Heap where
  allocated : List Block
  blocks : Blocks Block
  /-- An access through `NULL`, or outside of a block. -/
  strayed : Bool
  deriving DecidableEq

namespace Heap

def empty : Heap := ⟨[], .empty, false⟩

def alloc (h : Heap) (b : Block) : Heap :=
  { h with allocated := h.allocated ++ [b] }

def touch (h : Heap) (bs : List Block) : Heap :=
  { h with blocks := h.blocks.touchAll bs }

def free (h : Heap) (b : Block) : Heap :=
  { h with blocks := h.blocks.release b }

/-- An access that is in order if `within` holds. -/
def access (h : Heap) (within : Bool) : Heap :=
  { h with strayed := h.strayed || !within }

/-- `free(info->adc_level_step)` and `free(node)`. -/
def freeNode (i : Nat) (h : Heap) : Heap :=
  ((h.touch [.node i]).free (.levelStep i)).free (.node i)

/-- No access was wrong. -/
def Good (h : Heap) : Prop := h.strayed = false ∧ h.blocks.faulted = false

instance (h : Heap) : Decidable h.Good := inferInstanceAs (Decidable (_ ∧ _))

end Heap

/-! ## Building -/

/-- `memcpy` of `n` integers; what lies outside of the two is left out. -/
def memcpy (dst src : List Int) (n : Nat) : List Int :=
  (src.take n ++ dst.drop (src.take n).length).take dst.length

/-- The bytes of the level table. -/
def levelBytes (conf : AdcArr) : Nat :=
  sizeT ((conf.totalSteps + 1) * sizeofInt)

/-- The level table behind its `memcpy`. -/
def levels (conf : AdcArr) : List Int :=
  let table := List.replicate (levelBytes conf / sizeofInt) 0
  match conf.adcLevelStep with
  | none => memcpy table default_step_level USER_KEY_MAX
  | some src => memcpy table src (levelBytes conf / sizeofInt)

/-- The `memcpy` stays within the table and within its source. -/
def copies (conf : AdcArr) : Bool :=
  match conf.adcLevelStep with
  | none => USER_KEY_MAX * sizeofInt ≤ levelBytes conf
  | some src => levelBytes conf ≤ src.length * sizeofInt

/-- The node of a channel behind the body of the loop. -/
def newNode (i : Nat) (conf : AdcArr) : ListNode where
  index := i
  adcCh := conf.adcCh
  totalSteps := conf.totalSteps
  pressJudgeTime := conf.pressJudgeTime
  levelStep := levels conf
  btnDscp := List.replicate
    (sizeT (sizeofBtn * conf.totalSteps) / sizeofBtn) ⟨0, 0, false⟩

/-- The body of the loop up to the links; `calloc` says which allocations
succeed.  Without a node the function returns `NULL`. -/
def createNode (calloc : Block → Bool) (i : Nat) (conf : AdcArr) (h : Heap) :
    Heap × Option ListNode :=
  if calloc (.node i) = false then (h, none)
  else
    let h := (h.alloc (.node i)).touch [.node i]
    if calloc (.levelStep i) = false then
      -- The table is cleared before it is checked.
      ((h.access false).free (.node i), none)
    else
      let h := (h.alloc (.levelStep i)).touch [.node i, .levelStep i]
      let h := h.access (copies conf)
      -- The node is used behind both of the checks.
      let h := if conf.totalSteps > USER_KEY_MAX then h.freeNode i else h
      let h := h.touch [.node i]
      let h :=
        if calloc (.btnDscp i) = false then (h.freeNode i).access false
        else (h.alloc (.btnDscp i)).touch [.btnDscp i]
      (h.touch [.node i], some (newNode i conf))

/-- `n` more rounds of the loop, from the channel `i` on; an empty list is
`NULL`. -/
def createFrom (calloc : Block → Bool) (adcConf : Nat → AdcArr) :
    (n i : Nat) → List ListNode → Heap → Heap × List ListNode
  | 0, _, list, h => (h, list)
  | n + 1, i, list, h =>
      match createNode calloc i (adcConf i) h with
      | (h, none) => (h, [])
      | (h, some node) =>
          -- The last node is `find`.
          createFrom calloc adcConf n (i + 1) (list ++ [node])
            (h.touch (list.getLast?.toList.map fun find => .node find.index))

/-- `adc_btn_create_list`. -/
def adcBtnCreateList (calloc : Block → Bool) (adcConf : Nat → AdcArr)
    (channels : Int) : Heap × List ListNode :=
  createFrom calloc adcConf channels.toNat 0 [] .empty

/-- `adc_btn_destroy_list`. -/
def adcBtnDestroyList : List ListNode → Heap → Heap
  | [], h => h
  | find :: next, h =>
      let h := (h.touch [.node find.index]).free (.btnDscp find.index)
      let h := (h.touch [.node find.index]).free (.levelStep find.index)
      adcBtnDestroyList next (h.free (.node find.index))

/-! ## The property and the condition -/

/-- A node as its configuration asks for it: the levels are those of the
caller, or the default ones. -/
structure Sound (i : Nat) (conf : AdcArr) (node : ListNode) : Prop where
  index : node.index = i
  adcCh : node.adcCh = conf.adcCh
  pressJudgeTime : node.pressJudgeTime = conf.pressJudgeTime
  totalSteps : node.totalSteps = conf.totalSteps
  steps : node.totalSteps ≤ USER_KEY_MAX
  levelStep : (node.levelStep.length : Int) = node.totalSteps + 1
  copied : conf.adcLevelStep.getD default_step_level <+: node.levelStep ∨
    node.levelStep <+: conf.adcLevelStep.getD default_step_level
  btnDscp : (node.btnDscp.length : Int) = node.totalSteps

/-- A list of all channels with all that was allocated for it. -/
def Complete (adcConf : Nat → AdcArr) (channels : Int)
    (created : Heap × List ListNode) : Prop :=
  (created.2.length : Int) = channels ∧ created.1.blocks.released = [] ∧
    created.1.allocated = (List.range created.2.length).flatMap blocksOf ∧
    ∀ i node, created.2[i]? = some node → Sound i (adcConf i) node

/-- The list is complete, or there is none and all is released; and no access
was wrong on the way. -/
def Built (adcConf : Nat → AdcArr) (channels : Int)
    (created : Heap × List ListNode) : Prop :=
  created.1.Good ∧ (Complete adcConf channels created ∨
    created.2 = [] ∧ created.1.blocks.Clean created.1.allocated)

/-- A number of buttons that fits, also for the default levels. -/
def Fits (conf : AdcArr) : Prop :=
  0 ≤ conf.totalSteps ∧ conf.totalSteps ≤ USER_KEY_MAX ∧
    (conf.adcLevelStep = none → USER_KEY_MAX ≤ conf.totalSteps + 1)

/-- The three allocations of a channel succeed. -/
def Allocates (calloc : Block → Bool) (i : Nat) : Prop :=
  ∀ b ∈ blocksOf i, calloc b = true

/-! ## The heap along the way -/

namespace Heap

variable {h : Heap}

/-- Blocks that are not released may be used. -/
theorem touch_eq (hr : h.blocks.released = []) (bs : List Block) :
    h.touch bs = h := by
  obtain ⟨allocated, ⟨released, faulted⟩, strayed⟩ := h
  obtain rfl : released = [] := hr
  simp [touch, Blocks.touchAll]

@[simp] theorem released_touch (bs : List Block) :
    (h.touch bs).blocks.released = h.blocks.released := rfl

@[simp] theorem released_free (b : Block) :
    (h.free b).blocks.released = b :: h.blocks.released := rfl

@[simp] theorem access_true : h.access true = h := by
  simp [access]

theorem good_touch {bs : List Block} : (h.touch bs).Good ↔
    h.Good ∧ ∀ b ∈ bs, b ∉ h.blocks.released := by
  simp only [Good, touch, Blocks.faulted_touchAll, and_assoc]

theorem Good.of_touch {bs : List Block} (hg : (h.touch bs).Good) : h.Good :=
  (good_touch.1 hg).1

theorem good_free {b : Block} :
    (h.free b).Good ↔ h.Good ∧ b ∉ h.blocks.released := by
  simp only [Good, free, Blocks.faulted_release, and_assoc]

theorem Good.of_free {b : Block} (hg : (h.free b).Good) : h.Good :=
  (good_free.1 hg).1

theorem good_access {within : Bool} :
    (h.access within).Good ↔ h.Good ∧ within = true := by
  simp only [Good, access, Bool.or_eq_false_iff, Bool.not_eq_false']
  tauto

theorem good_alloc {b : Block} : (h.alloc b).Good ↔ h.Good := Iff.rfl

/-- The check of `total_steps` clears nothing. -/
theorem Good.of_steps {i : Nat} {p : Prop} [Decidable p]
    (hg : (if p then h.freeNode i else h).Good) : h.Good := by
  split at hg
  · exact hg.of_free.of_free.of_touch
  · exact hg

/-- The check of the descriptors clears nothing. -/
theorem Good.of_dscp {i : Nat} {p : Prop} [Decidable p] {b : Block}
    {bs : List Block} (hg : (if p then (h.freeNode i).access false
      else (h.alloc b).touch bs).Good) : h.Good ∧ ¬p := by
  split at hg
  · exact (Bool.false_ne_true (good_access.1 hg).2).elim
  · rename_i hp
    exact ⟨hg.of_touch, hp⟩

/-- The node that was freed is not used again. -/
theorem not_good_freed {i : Nat} {bs : List Block} (hmem : .node i ∈ bs) :
    ¬((h.freeNode i).touch bs).Good := fun hg =>
  (good_touch.1 hg).2 _ hmem (List.mem_cons_self ..)

end Heap

/-! ## One channel -/

theorem sizeT_of_nonneg {n : Int} (h : 0 ≤ n) (hlt : n < 2 ^ 32) :
    (sizeT n : Int) = n := by
  rw [sizeT, Int.emod_eq_of_lt h hlt, Int.toNat_of_nonneg h]

section Channel

variable {conf : AdcArr}

theorem levelBytes_eq (h : 0 ≤ conf.totalSteps)
    (hsteps : conf.totalSteps ≤ USER_KEY_MAX) :
    (levelBytes conf : Int) = (conf.totalSteps + 1) * 4 := by
  have hmax : (USER_KEY_MAX : Int) = 7 := rfl
  exact sizeT_of_nonneg (by simp only [sizeofInt]; omega)
    (by simp only [sizeofInt]; omega)

theorem length_memcpy (dst src : List Int) (n : Nat) :
    (memcpy dst src n).length = dst.length := by
  rw [memcpy, List.length_take, List.length_append, List.length_drop]
  omega

theorem length_levels : (levels conf).length = levelBytes conf / sizeofInt := by
  unfold levels
  cases conf.adcLevelStep <;>
    exact (length_memcpy ..).trans List.length_replicate

/-- A source that is copied as a whole is in front of what was there. -/
theorem memcpy_prefixed {dst src : List Int} {n : Nat} (h : src.length ≤ n)
    (hdst : src.length ≤ dst.length) : src <+: memcpy dst src n := by
  rw [memcpy, List.take_of_length_le h, List.take_append,
    List.take_of_length_le hdst]
  exact List.prefix_append ..

/-- A table that is filled is the front of the source. -/
theorem prefixed_memcpy {dst src : List Int} (h : dst.length ≤ src.length) :
    memcpy dst src dst.length <+: src := by
  rw [memcpy, List.take_append_of_le_length (by simp [h]), List.take_take,
    Nat.min_self]
  exact List.take_prefix ..

theorem copies_iff (h : 0 ≤ conf.totalSteps)
    (hsteps : conf.totalSteps ≤ USER_KEY_MAX) :
    copies conf = true ↔
      (conf.adcLevelStep = none → USER_KEY_MAX ≤ conf.totalSteps + 1) := by
  have hbytes := levelBytes_eq h hsteps
  have hsize := conf.size
  have hmax : (USER_KEY_MAX : Int) = 7 := rfl
  unfold copies
  cases htable : conf.adcLevelStep with
  | none =>
      rw [decide_eq_true_iff]
      simp only [true_imp_iff, USER_KEY_MAX, sizeofInt]
      omega
  | some src =>
      have hlen := hsize src htable
      rw [decide_eq_true_iff]
      simp only [reduceCtorEq, false_imp_iff, iff_true, sizeofInt]
      omega

theorem levels_copied (h : Fits conf) :
    conf.adcLevelStep.getD default_step_level <+: levels conf ∨
      levels conf <+: conf.adcLevelStep.getD default_step_level := by
  obtain ⟨hnonneg, hsteps, hdefault⟩ := h
  have hbytes := levelBytes_eq hnonneg hsteps
  have hsize := conf.size
  unfold levels
  cases htable : conf.adcLevelStep with
  | none =>
      have hlen := hdefault htable
      have hmax : (USER_KEY_MAX : Int) = 7 := rfl
      refine .inl (memcpy_prefixed (by decide) ?_)
      rw [List.length_replicate, Option.getD_none]
      simp only [default_step_level, List.length_cons, List.length_nil,
        sizeofInt]
      omega
  | some src =>
      have hlen := hsize src htable
      refine .inr ?_
      have hshort : (List.replicate (levelBytes conf / sizeofInt)
          (0 : Int)).length ≤ src.length := by
        rw [List.length_replicate]
        simp only [sizeofInt]
        omega
      have hle := prefixed_memcpy hshort
      rwa [List.length_replicate] at hle

/-- A node with its tables copied is sound exactly if the configuration
fits. -/
theorem sound_newNode (i : Nat) (hcopies : copies conf = true) :
    Sound i conf (newNode i conf) ↔ Fits conf := by
  constructor
  · intro h
    have hlen : ((newNode i conf).btnDscp.length : Int) = conf.totalSteps :=
      h.btnDscp
    have hnonneg : 0 ≤ conf.totalSteps := by omega
    exact ⟨hnonneg, h.steps, (copies_iff hnonneg h.steps).1 hcopies⟩
  · intro h
    obtain ⟨hnonneg, hsteps, -⟩ := id h
    have hbytes := levelBytes_eq hnonneg hsteps
    have hmax : (USER_KEY_MAX : Int) = 7 := rfl
    have hdscp : (sizeT (sizeofBtn * conf.totalSteps) : Int) =
        sizeofBtn * conf.totalSteps :=
      sizeT_of_nonneg (by simp only [sizeofBtn]; omega)
        (by simp only [sizeofBtn]; omega)
    refine ⟨rfl, rfl, rfl, rfl, hsteps, ?_, levels_copied h, ?_⟩
    · show ((levels conf).length : Int) = conf.totalSteps + 1
      rw [length_levels]
      simp only [sizeofInt]
      omega
    · show ((List.replicate _ _).length : Int) = conf.totalSteps
      rw [List.length_replicate]
      simp only [sizeofBtn] at hdscp ⊢
      omega

end Channel

/-- The blocks of a channel are allocated. -/
def Heap.grow (h : Heap) (i : Nat) : Heap :=
  { h with allocated := h.allocated ++ blocksOf i }

section Create

variable {calloc : Block → Bool} {i : Nat} {conf : AdcArr} {h : Heap}

theorem createNode_none (hnode : calloc (.node i) = false) :
    createNode calloc i conf h = (h, none) := by
  rw [createNode, if_pos hnode]

/-- Nothing goes wrong. -/
theorem createNode_some (hr : h.blocks.released = [])
    (hall : Allocates calloc i) (hsteps : conf.totalSteps ≤ USER_KEY_MAX)
    (hcopies : copies conf = true) :
    createNode calloc i conf h = (h.grow i, some (newNode i conf)) := by
  have hnode : calloc (.node i) = true := hall _ (by simp [blocksOf])
  have hlevel : calloc (.levelStep i) = true := hall _ (by simp [blocksOf])
  have hdscp : calloc (.btnDscp i) = true := hall _ (by simp [blocksOf])
  have htouch : ∀ (l : List Block) (bs : List Block),
      Heap.touch { h with allocated := l } bs = { h with allocated := l } :=
    fun l bs => Heap.touch_eq (h := { h with allocated := l }) hr bs
  simp [createNode, hnode, hlevel, hdscp, Int.not_lt.2 hsteps, hcopies,
    Heap.alloc, htouch, Heap.grow, blocksOf]

/-- What is in order if no access was wrong. -/
theorem good_createNode (hnode : calloc (.node i) = true)
    (hg : (createNode calloc i conf h).1.Good) :
    (h.Good ∧ conf.totalSteps ≤ USER_KEY_MAX ∧ copies conf = true) ∧
      Allocates calloc i := by
  simp only [createNode, hnode, Bool.true_eq_false, if_false] at hg
  cases hlevel : calloc (.levelStep i) with
  | false =>
      rw [if_pos hlevel] at hg
      exact (Bool.false_ne_true (Heap.good_access.1 hg.of_free).2).elim
  | true =>
      simp only [hlevel, Bool.true_eq_false, if_false] at hg
      obtain ⟨hg, hdscp⟩ := hg.of_touch.of_dscp
      have hsteps : ¬conf.totalSteps > USER_KEY_MAX := by
        intro hsteps
        rw [if_pos hsteps] at hg
        exact Heap.not_good_freed (List.mem_singleton.2 rfl) hg
      obtain ⟨hg, hcopies⟩ := Heap.good_access.1 hg.of_touch.of_steps
      have hg := Heap.good_alloc.1 hg.of_touch
      refine ⟨⟨Heap.good_alloc.1 hg.of_touch, Int.not_lt.1 hsteps, hcopies⟩, ?_⟩
      intro b hb
      simp only [blocksOf, List.mem_cons, List.not_mem_nil, or_false] at hb
      rcases hb with rfl | rfl | rfl
      · exact hnode
      · exact hlevel
      · exact Bool.not_eq_false _ ▸ hdscp

/-- A wrong access stays one. -/
theorem good_of_createNode (hg : (createNode calloc i conf h).1.Good) :
    h.Good := by
  cases hnode : calloc (.node i) with
  | false =>
      rw [createNode_none hnode] at hg
      exact hg
  | true => exact (good_createNode hnode hg).1.1

end Create

/-! ## The loop -/

section Loop

variable {calloc : Block → Bool} {adcConf : Nat → AdcArr}

/-- The nodes of `n` channels from `i` on. -/
def newNodes (adcConf : Nat → AdcArr) (i n : Nat) : List ListNode :=
  (List.range' i n).map fun k => newNode k (adcConf k)

/-- Every round makes a node. -/
theorem createFrom_some (n : Nat) : ∀ {i : Nat} {list : List ListNode}
    {h : Heap}, h.blocks.released = [] →
    (∀ k ∈ List.range' i n, Allocates calloc k ∧
      (adcConf k).totalSteps ≤ USER_KEY_MAX ∧ copies (adcConf k) = true) →
    createFrom calloc adcConf n i list h =
      ({ h with allocated :=
          h.allocated ++ (List.range' i n).flatMap blocksOf },
        list ++ newNodes adcConf i n) := by
  induction n with
  | zero =>
      intro i list h hr hall
      simp [createFrom, newNodes]
  | succ n ih =>
      intro i list h hr hall
      rw [List.range'_succ, List.forall_mem_cons] at hall
      obtain ⟨⟨halloc, hsteps, hcopies⟩, hall⟩ := hall
      have hgrow : (h.grow i).blocks.released = [] := hr
      rw [createFrom, createNode_some hr halloc hsteps hcopies]
      simp only [Heap.touch_eq hgrow]
      rw [ih hgrow hall]
      simp [Heap.grow, newNodes, List.range'_succ]

/-- A wrong access in a round stays one. -/
theorem good_of_createFrom (n : Nat) : ∀ {i : Nat} {list : List ListNode}
    {h : Heap}, (createFrom calloc adcConf n i list h).1.Good →
    h.Good ∧ (0 < n → (createNode calloc i (adcConf i) h).1.Good) := by
  induction n with
  | zero =>
      intro i list h hg
      exact ⟨hg, nofun⟩
  | succ n ih =>
      intro i list h hg
      have hnode : (createNode calloc i (adcConf i) h).1.Good := by
        rw [createFrom] at hg
        split at hg
        · rename_i heq
          rw [heq]
          exact hg
        · rename_i heq
          rw [heq]
          exact (ih hg).1.of_touch
      exact ⟨good_of_createNode hnode, fun _ => hnode⟩

/-- If no access was wrong, every round has made a node, or one of them had
none to begin with. -/
theorem createFrom_good (n : Nat) : ∀ {i : Nat} {list : List ListNode}
    {h : Heap}, h.blocks.released = [] →
    (createFrom calloc adcConf n i list h).1.Good →
    h.Good ∧ ((∃ k, k < n ∧ calloc (.node (i + k)) = false ∧
        createFrom calloc adcConf n i list h =
          ({ h with allocated :=
              h.allocated ++ (List.range' i k).flatMap blocksOf }, [])) ∨
      ∀ k ∈ List.range' i n, Allocates calloc k ∧
        (adcConf k).totalSteps ≤ USER_KEY_MAX ∧
          copies (adcConf k) = true) := by
  induction n with
  | zero =>
      intro i list h hr hg
      exact ⟨hg, .inr (by simp)⟩
  | succ n ih =>
      intro i list h hr hg
      cases hnode : calloc (.node i) with
      | false =>
          have hfirst : createFrom calloc adcConf (n + 1) i list h = (h, []) := by
            rw [createFrom, createNode_none hnode]
          rw [hfirst] at hg ⊢
          exact ⟨hg, .inl ⟨0, Nat.succ_pos n, hnode, by simp⟩⟩
      | true =>
          obtain ⟨⟨hgood, hsteps, hcopies⟩, halloc⟩ := good_createNode hnode
            ((good_of_createFrom _ hg).2 (Nat.succ_pos n))
          have hgrow : (h.grow i).blocks.released = [] := hr
          have hround : createFrom calloc adcConf (n + 1) i list h =
              createFrom calloc adcConf n (i + 1)
                (list ++ [newNode i (adcConf i)]) (h.grow i) := by
            rw [createFrom, createNode_some hr halloc hsteps hcopies]
            simp only [Heap.touch_eq hgrow]
          rw [hround] at hg ⊢
          refine ⟨hgood, ?_⟩
          rcases (ih hgrow hg).2 with ⟨k, hk, hfail, hfrom⟩ | hall
          · refine .inl ⟨k + 1, Nat.succ_lt_succ hk, ?_, ?_⟩
            · rwa [Nat.add_comm k 1, ← Nat.add_assoc]
            · rw [hfrom]
              simp [Heap.grow, List.range'_succ]
          · refine .inr ?_
            rw [List.range'_succ, List.forall_mem_cons]
            exact ⟨⟨halloc, hsteps, hcopies⟩, hall⟩

end Loop

/-! ## The results -/

section Results

variable {calloc : Block → Bool} {adcConf : Nat → AdcArr} {channels : Int}

/-- Nothing is allocated, and there is no list. -/
theorem built_empty : Built adcConf channels (.empty, []) :=
  ⟨⟨rfl, rfl⟩, .inr ⟨rfl, .nil, rfl⟩⟩

/-- The nodes of all channels are a complete list. -/
theorem complete_newNodes {n : Nat}
    (hfits : ∀ k < n, Fits (adcConf k)) :
    Complete adcConf n
      (⟨(List.range n).flatMap blocksOf, .empty, false⟩,
        newNodes adcConf 0 n) := by
  have hlen : (newNodes adcConf 0 n).length = n := by simp [newNodes]
  refine ⟨congrArg Int.ofNat hlen, rfl, by rw [hlen], fun i node hnode => ?_⟩
  rw [newNodes, List.getElem?_map, Option.map_eq_some_iff] at hnode
  obtain ⟨k, hk, rfl⟩ := hnode
  obtain ⟨hlt, rfl⟩ := List.getElem?_eq_some_iff.1 hk
  rw [List.length_range'] at hlt
  simp only [List.getElem_range', Nat.zero_add, Nat.one_mul]
  have hfit := hfits i hlt
  exact (sound_newNode i ((copies_iff hfit.1 hfit.2.1).2 hfit.2.2)).2 hfit

theorem released_empty : Heap.empty.blocks.released = [] := rfl

/-- A first node that is not allocated leaves nothing behind, and with all of
them the list is complete. -/
theorem built_of_fits {n : Nat}
    (h : calloc (.node 0) = false ∨
      ∀ k < n, Fits (adcConf k) ∧ Allocates calloc k) :
    Built adcConf n (createFrom calloc adcConf n 0 [] .empty) := by
  rcases h with hfail | hall
  · cases n with
    | zero => exact built_empty
    | succ n =>
        rw [createFrom, createNode_none hfail]
        exact built_empty
  · have hrounds : ∀ k ∈ List.range' 0 n, Allocates calloc k ∧
        (adcConf k).totalSteps ≤ USER_KEY_MAX ∧
          copies (adcConf k) = true := by
      intro k hk
      rw [List.mem_range'_1] at hk
      obtain ⟨hfit, halloc⟩ := hall k (by omega)
      exact ⟨halloc, hfit.2.1, (copies_iff hfit.1 hfit.2.1).2 hfit.2.2⟩
    have hcomplete := complete_newNodes fun k hk => (hall k hk).1
    rw [List.range_eq_range'] at hcomplete
    rw [createFrom_some n released_empty hrounds]
    exact ⟨⟨rfl, rfl⟩, .inl hcomplete⟩

/-- Otherwise an access was wrong, the nodes before are lost, or a node is not
sound. -/
theorem fits_of_built {n : Nat} (hn : 0 < n)
    (h : Built adcConf n (createFrom calloc adcConf n 0 [] .empty)) :
    calloc (.node 0) = false ∨
      ∀ k < n, Fits (adcConf k) ∧ Allocates calloc k := by
  rcases (createFrom_good n released_empty h.1).2 with
    ⟨k, -, hfail, hfrom⟩ | hall
  · rw [hfrom] at h
    rcases h.2 with hcomplete | ⟨-, hclean, -⟩
    · have hlen : ((0 : Nat) : Int) = n := hcomplete.1
      omega
    · have hnil := hclean.nil_eq
      cases k with
      | zero => exact .inl hfail
      | succ k =>
          rw [List.range'_succ] at hnil
          exact absurd hnil.symm (by simp [blocksOf])
  · refine .inr fun k hk => ?_
    obtain ⟨halloc, -, hcopies⟩ := hall k
      (List.mem_range'_1.2 ⟨Nat.zero_le k, by omega⟩)
    have hget : (newNodes adcConf 0 n)[k]? = some (newNode k (adcConf k)) := by
      rw [newNodes, List.getElem?_map, List.getElem?_range' hk]
      simp
    rw [createFrom_some n released_empty hall] at h
    refine ⟨?_, halloc⟩
    rcases h.2 with hcomplete | ⟨hlist, -⟩
    · exact (sound_newNode k hcopies).1 (hcomplete.2.2.2 k _ hget)
    · have hlist : newNodes adcConf 0 n = [] := hlist
      rw [hlist] at hget
      contradiction

/-- **The list is complete or gone** exactly if there are no channels, not even
the first node is allocated, or all allocations succeed for configurations that
fit. -/
theorem adc_btn_create_list_iff :
    Built adcConf channels (adcBtnCreateList calloc adcConf channels) ↔
      channels ≤ 0 ∨ calloc (.node 0) = false ∨
        ∀ k : Nat, (k : Int) < channels →
          Fits (adcConf k) ∧ Allocates calloc k := by
  rw [adcBtnCreateList]
  by_cases hn : channels ≤ 0
  · rw [Int.toNat_of_nonpos hn]
    exact iff_of_true built_empty (.inl hn)
  · obtain ⟨n, rfl⟩ := Int.eq_ofNat_of_zero_le
      (Int.le_of_lt (Int.not_le.1 hn))
    rw [Int.toNat_natCast]
    constructor
    · intro h
      exact .inr ((fits_of_built (by omega) h).imp_right
        fun hall k hk => hall k (Int.ofNat_lt.1 hk))
    · intro h
      exact built_of_fits ((h.resolve_left hn).imp_right
        fun hall k hk => hall k (Int.ofNat_lt.2 hk))

/-- A node that is sound is one that `button_task` can visit. -/
theorem Sound.adcInfo {i : Nat} {conf : AdcArr} {node : ListNode}
    (h : Sound i conf node) : ∃ info : AdcButton.AdcInfo,
      info.adcCh = conf.adcCh ∧ info.adcLevelStep = node.levelStep ∧
      (info.totalSteps : Int) = conf.totalSteps ∧
      info.pressJudgeTime = conf.pressJudgeTime := by
  have hlevel := h.levelStep
  have hdscp := h.btnDscp
  refine ⟨⟨conf.adcCh, node.levelStep, node.btnDscp.length,
    conf.pressJudgeTime, by omega⟩, rfl, rfl, ?_, rfl⟩
  exact hdscp.trans h.totalSteps

/-! ## Destroying -/

theorem destroy_good (list : List ListNode) : ∀ {h : Heap}, h.Good →
    (list.map ListNode.index).Nodup →
    (∀ node ∈ list, ∀ b ∈ blocksOf node.index, b ∉ h.blocks.released) →
    (adcBtnDestroyList list h).Good ∧
      (adcBtnDestroyList list h).blocks.released.Perm
        ((list.map ListNode.index).flatMap blocksOf ++
          h.blocks.released) := by
  induction list with
  | nil => exact fun hg _ _ => ⟨hg, .refl _⟩
  | cons find next ih =>
      intro h hg hnodup hlive
      rw [List.map_cons, List.nodup_cons] at hnodup
      rw [List.forall_mem_cons] at hlive
      obtain ⟨hfind, hnext⟩ := hlive
      have hnode := hfind (.node find.index) (by simp [blocksOf])
      have hlevel := hfind (.levelStep find.index) (by simp [blocksOf])
      have hdscp := hfind (.btnDscp find.index) (by simp [blocksOf])
      -- The three blocks of the first node.
      let h₁ := (h.touch [.node find.index]).free (.btnDscp find.index)
      let h₂ := (h₁.touch [.node find.index]).free (.levelStep find.index)
      have hg₁ : h₁.Good := Heap.good_free.2
        ⟨Heap.good_touch.2 ⟨hg, by simpa using hnode⟩, hdscp⟩
      have hg₂ : h₂.Good := Heap.good_free.2
        ⟨Heap.good_touch.2 ⟨hg₁, by simpa [h₁] using hnode⟩,
          by simpa [h₁] using hlevel⟩
      have hg₃ : (h₂.free (.node find.index)).Good := Heap.good_free.2
        ⟨hg₂, by simpa [h₂, h₁] using hnode⟩
      have hreleased : (h₂.free (.node find.index)).blocks.released =
          .node find.index :: .levelStep find.index ::
            .btnDscp find.index :: h.blocks.released := rfl
      obtain ⟨hgood, hperm⟩ := ih hg₃ hnodup.2 fun node hmem b hb => by
        have hne : node.index ≠ find.index := fun heq =>
          hnodup.1 (heq ▸ List.mem_map_of_mem hmem)
        have hb' := hnext node hmem b hb
        rw [hreleased]
        simp only [blocksOf, List.mem_cons, List.not_mem_nil, or_false] at hb
        rcases hb with rfl | rfl | rfl <;> simp [hne, hb']
      refine ⟨hgood, hperm.trans ?_⟩
      rw [hreleased, List.map_cons, List.flatMap_cons, List.append_assoc]
      exact List.perm_append_comm_assoc _ (blocksOf find.index) _

/-- **A complete list is released as a whole**, and each block once. -/
theorem adc_btn_destroy_list_clean {h : Heap} {list : List ListNode}
    (hg : h.Good) (hc : Complete adcConf channels (h, list)) :
    (adcBtnDestroyList list h).Good ∧
      (adcBtnDestroyList list h).blocks.Clean h.allocated := by
  obtain ⟨-, hreleased, hallocated, hsound⟩ := hc
  have hindex : list.map ListNode.index = List.range list.length := by
    refine List.ext_getElem (by simp) fun i hi hi' => ?_
    rw [List.getElem_map, List.getElem_range]
    exact (hsound i _ (List.getElem?_eq_getElem (by simpa using hi))).index
  have hreleased : h.blocks.released = [] := hreleased
  obtain ⟨hgood, hperm⟩ := destroy_good list hg
    (hindex ▸ List.nodup_range) fun node _ b _ => by simp [hreleased]
  rw [hindex, hreleased, List.append_nil] at hperm
  exact ⟨hgood, hallocated ▸ hperm, hgood.2⟩

/-- `ADC_DEFAULT_ARR`. -/
def adcDefaultArr : AdcArr := ⟨3, none, 6, 3000, nofun⟩

/-- The second of two nodes is not allocated, and the first one is lost. -/
theorem adc_btn_create_list_leak :
    ¬Built (fun _ => adcDefaultArr) 2
      (adcBtnCreateList (fun b => b ≠ .node 1) (fun _ => adcDefaultArr) 2) := by
  have hleak : adcBtnCreateList (fun b => b ≠ .node 1)
      (fun _ => adcDefaultArr) 2 =
        (⟨[.node 0, .levelStep 0, .btnDscp 0], .empty, false⟩, []) := by
    decide
  rw [hleak]
  rintro ⟨-, ⟨hlen, -⟩ | ⟨-, hclean, -⟩⟩
  · exact absurd hlen (by decide)
  · exact absurd hclean.length_eq (by decide)

end Results

end EspAdf.Ports.AdcButtonList
