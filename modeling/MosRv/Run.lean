import MosRv.BootInv
import MosRv.Lib.Reach

/-!
# Runs of the machine

`Reaches mc C` are the states that the machine `mc` reaches, from the state that `page_init` and
`env_init` leave, by events that all satisfy `C` in the state they occur in.  `Reaches.kInv` is
`KInv.wp_event` along a run.
-/

namespace MosRv

open RefGraph Reach

/-- The states after `page_init` and `env_init`. -/
def Machine.Boots (mc : Machine) (k : Kernel) : Prop :=
  ∃ dev, bootProg mc (mc.initial dev) = .ok () k

/-- The states that runs from `k₀` with events in `C` reach. -/
def ReachesFrom (k₀ : Kernel) (C : Kernel → Event → Prop) : Kernel → Prop :=
  Reachable (· = k₀) (When C Step)

/-- The states that runs of the machine with events in `C` reach. -/
def Reaches (mc : Machine) (C : Kernel → Event → Prop) : Kernel → Prop :=
  Reachable mc.Boots (When C Step)

/-! ## The kernel invariant along a run -/

section

variable {mc : Machine} {T : Template} {k k' : Kernel} {C C' : Kernel → Event → Prop} {ev : Event}

lemma Machine.Boots.booted (h : mc.Boots k) (gap strict : Bool) (hm : strict = true → gap = false) :
    ∃ dev T, T.gap = gap ∧ T.strict = strict ∧ Booted mc dev T k := by
  obtain ⟨dev, hk⟩ := h
  obtain ⟨T, k₁, hk₁, hb⟩ := boot_spec mc dev gap strict hm
  rw [hk] at hk₁
  cases hk₁
  exact ⟨dev, T, hb⟩

lemma ReachesFrom.reaches {k₀ : Kernel} (h : ReachesFrom k₀ C k) (hb : mc.Boots k₀) :
    Reaches mc C k := by
  induction h with
  | init h => exact .init (h ▸ hb)
  | step _ h ih => exact ih.step h

lemma Reaches.mono (h : Reaches mc C k) (hle : ∀ k ev, C k ev → C' k ev) : Reaches mc C' k :=
  Reachable.mono h fun _ _ _ hs => ⟨hle _ _ hs.1, hs.2⟩

lemma Step.kInv (h : Step k ev k') (hk : KInv T k) (ha : ev.Admissible k) (hs : ev.Serves T k) :
    KInv T k' := by
  obtain ⟨hen, hok | hexit⟩ := h
  · exact (hk.wp_event hen ha hs).of_ok hok
  · exact (hk.wp_event hen ha hs).of_exit hexit

/-- The kernel invariant, with a template of this machine. -/
def Machine.Inv (mc : Machine) (gap : Bool) (k : Kernel) : Prop :=
  ∃ T : Template, T.npage = mc.npage ∧ T.nUsed = mc.nUsed ∧ T.gap = gap ∧ KInv T k

/-- **In a run of admissible events the kernel invariant holds in every state.** -/
theorem ReachesFrom.kInv {k₀ : Kernel} (h : ReachesFrom k₀ C k) (h₀ : KInv T k₀)
    (hC : ∀ k ev, C k ev → ev.Admissible k ∧ ev.Serves T k) : KInv T k := by
  refine Reachable.invariant h ?_ ?_
  · rintro k rfl
    exact h₀
  · rintro k ev k' hk ⟨hc, hstep⟩
    exact hstep.kInv hk (hC k ev hc).1 (hC k ev hc).2

lemma Reaches.exists_from (h : Reaches mc C k) : ∃ k₀, mc.Boots k₀ ∧ ReachesFrom k₀ C k := by
  induction h with
  | init h => exact ⟨_, h, .init rfl⟩
  | step _ h ih =>
      obtain ⟨k₀, hk₀, hk⟩ := ih
      exact ⟨k₀, hk₀, hk.step h⟩

lemma Reaches.kInv (h : Reaches mc C k) (hC : ∀ k ev, C k ev → ev.Admissible k) :
    mc.Inv true k := by
  obtain ⟨k₀, hk₀, hk⟩ := h.exists_from
  obtain ⟨dev, T, hgap, -, hb⟩ := hk₀.booted true false (by decide)
  exact ⟨T, hb.npage_eq, hb.nUsed_eq, hgap,
    hk.kInv hb.kInv fun k ev hc => ⟨hC k ev hc, ev.serves_of_gap hgap k⟩⟩

end

end MosRv
