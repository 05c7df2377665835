import Mathlib

/-!
# Registers of a device, and a shadow of some of them

A driver that cannot read its device keeps a shadow of registers, changes bits
of the shadow, and writes the result.  `device` is what was last written to
each register; the shadow has an entry for those that `addr` gives an address.
The shadow is coherent when the entry of every register that has been written
is what was written.

* `Coherent.write` — a value written through the shadow keeps it coherent.
* `coherent_pokes_iff` — values written past it do so exactly if the shadow
  has them already.
* `Coherent.device_write` — through a coherent shadow, a change of the entry
  is a change of the register.

The module names nothing of the modelled repository.
-/

namespace EspAdf.Verified

/-- A device, and the shadow of its registers `addr i`. -/
structure Shadowed (ι ρ β : Type*) where
  shadow : ι → β
  /-- What was last written. -/
  device : ρ → Option β

namespace Shadowed

variable {ι ρ β : Type*} [DecidableEq ρ]

/-- A value is written past the shadow. -/
def poke (s : Shadowed ι ρ β) (r : ρ) (b : β) : Shadowed ι ρ β :=
  { s with device := Function.update s.device r (some b) }

/-- Values are written past the shadow, one after the other. -/
def pokes (s : Shadowed ι ρ β) (writes : List (ρ × β)) : Shadowed ι ρ β :=
  writes.foldl (fun s w => s.poke w.1 w.2) s

/-- The entry of every register that has been written is what was written. -/
def Coherent (addr : ι → ρ) (s : Shadowed ι ρ β) : Prop :=
  ∀ i b, s.device (addr i) = some b → s.shadow i = b

variable {addr : ι → ρ} {s : Shadowed ι ρ β}

theorem shadow_pokes (s : Shadowed ι ρ β) (writes : List (ρ × β)) :
    (s.pokes writes).shadow = s.shadow := by
  induction writes generalizing s with
  | nil => rfl
  | cons w writes ih => exact ih (s.poke w.1 w.2)

/-- A register that is not written keeps its value. -/
theorem device_pokes_of_notMem {writes : List (ρ × β)} {r : ρ}
    (h : r ∉ writes.map Prod.fst) : (s.pokes writes).device r = s.device r := by
  induction writes generalizing s with
  | nil => rfl
  | cons w writes ih =>
      rw [List.map_cons, List.mem_cons, not_or] at h
      exact (ih h.2).trans (Function.update_of_ne h.1 _ _)

/-- A register that is written once has that value. -/
theorem device_pokes_of_mem {writes : List (ρ × β)}
    (hnodup : (writes.map Prod.fst).Nodup) {w : ρ × β} (h : w ∈ writes) :
    (s.pokes writes).device w.1 = some w.2 := by
  induction writes generalizing s with
  | nil => contradiction
  | cons v writes ih =>
      rw [List.map_cons, List.nodup_cons] at hnodup
      rcases List.mem_cons.1 h with rfl | h
      · exact (device_pokes_of_notMem hnodup.1).trans
          (Function.update_self _ _ _)
      · exact ih hnodup.2 h

/-- Values written past the shadow keep it coherent exactly if it has them. -/
theorem coherent_pokes_iff (h : Coherent addr s) {writes : List (ρ × β)}
    (hnodup : (writes.map Prod.fst).Nodup) :
    Coherent addr (s.pokes writes) ↔
      ∀ w ∈ writes, ∀ i, addr i = w.1 → s.shadow i = w.2 := by
  constructor
  · intro hc w hw i hi
    have hdevice := device_pokes_of_mem (s := s) hnodup hw
    rw [← hi] at hdevice
    exact congrFun (shadow_pokes s writes) i ▸ hc i w.2 hdevice
  · intro hall i b hb
    rw [shadow_pokes]
    by_cases hin : addr i ∈ writes.map Prod.fst
    · obtain ⟨w, hw, hwi⟩ := List.mem_map.1 hin
      have hdevice := device_pokes_of_mem (s := s) hnodup hw
      rw [hwi, hb] at hdevice
      rw [Option.some.inj hdevice]
      exact hall w hw i hwi.symm
    · rw [device_pokes_of_notMem hin] at hb
      exact h i b hb

/-- So do values written elsewhere. -/
theorem Coherent.pokes (h : Coherent addr s) {writes : List (ρ × β)}
    (hout : ∀ w ∈ writes, ∀ i, addr i ≠ w.1) :
    Coherent addr (s.pokes writes) := by
  intro i b hb
  have hin : addr i ∉ writes.map Prod.fst := by
    intro hin
    obtain ⟨w, hw, hwi⟩ := List.mem_map.1 hin
    exact hout w hw i hwi.symm
  rw [device_pokes_of_notMem hin] at hb
  exact congrFun (shadow_pokes s writes) i ▸ h i b hb

variable [DecidableEq ι]

/-- The entry is set, and nothing is written. -/
def enter (s : Shadowed ι ρ β) (i : ι) (b : β) : Shadowed ι ρ β :=
  { s with shadow := Function.update s.shadow i b }

/-- A value is written through the shadow. -/
def write (addr : ι → ρ) (s : Shadowed ι ρ β) (i : ι) (b : β) :
    Shadowed ι ρ β :=
  (s.enter i b).poke (addr i) b

/-- A value written through the shadow keeps it coherent. -/
theorem Coherent.write (haddr : Function.Injective addr) (h : Coherent addr s)
    (i : ι) (b : β) : Coherent addr (Shadowed.write addr s i b) := by
  intro j c hc
  by_cases hj : j = i
  · subst hj
    have hb : Function.update s.device (addr j) (some b) (addr j) = some c := hc
    rw [Function.update_self] at hb
    exact (Function.update_self _ _ _).trans (Option.some.inj hb)
  · have hne : addr j ≠ addr i := fun heq => hj (haddr heq)
    have hold : s.device (addr j) = some c :=
      (Function.update_of_ne hne _ _).symm.trans hc
    exact (Function.update_of_ne hj _ _).trans (h j c hold)

/-- Through a coherent shadow, a change of the entry is a change of the
register. -/
theorem Coherent.device_write (h : Coherent addr s) {i : ι} {old : β}
    (hold : s.device (addr i) = some old) (f : β → β) :
    (Shadowed.write addr s i (f (s.shadow i))).device (addr i) =
      some (f old) := by
  rw [h i old hold]
  exact Function.update_self _ _ _

theorem shadow_write_self (s : Shadowed ι ρ β) (i : ι) (b : β) :
    (Shadowed.write addr s i b).shadow i = b :=
  Function.update_self _ _ _

theorem device_write_self (s : Shadowed ι ρ β) (i : ι) (b : β) :
    (Shadowed.write addr s i b).device (addr i) = some b :=
  Function.update_self _ _ _

theorem shadow_write_of_ne (s : Shadowed ι ρ β) {i j : ι} (h : j ≠ i) (b : β) :
    (Shadowed.write addr s i b).shadow j = s.shadow j :=
  Function.update_of_ne h _ _

/-- The other registers are not touched. -/
theorem device_write_of_ne (s : Shadowed ι ρ β) {i : ι} {r : ρ}
    (h : r ≠ addr i) (b : β) :
    (Shadowed.write addr s i b).device r = s.device r :=
  Function.update_of_ne h _ _

end Shadowed

end EspAdf.Verified
