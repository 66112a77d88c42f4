import Mathlib

/-!
# State machines

A machine is given by which actions are enabled in a state and what they do.
Its runs are the sequences of actions that are enabled one after the other.
-/

namespace BlockchainDataCollection.Effect

structure Machine (State Action : Type) where
  Enabled : State → Action → Prop
  effect : State → Action → State
  decidableEnabled : ∀ state action, Decidable (Enabled state action)

namespace Machine

variable {State Action : Type} (machine : Machine State Action)

instance (state : State) (action : Action) : Decidable (machine.Enabled state action) :=
  machine.decidableEnabled state action

/-- The state after a run, if all of its actions are enabled. -/
def run : State → List Action → Option State
  | state, [] => some state
  | state, action :: actions =>
      if machine.Enabled state action then run (machine.effect state action) actions else none

def Reaches (first last : State) : Prop :=
  ∃ actions, run machine first actions = some last

/-- The runs of a machine in which every action meets a condition on the state
it starts from. -/
def restrict (condition : State → Action → Prop)
    [∀ state action, Decidable (condition state action)] : Machine State Action where
  Enabled state action := machine.Enabled state action ∧ condition state action
  effect := machine.effect
  decidableEnabled _ _ := inferInstance

variable {machine}

theorem Reaches.refl (state : State) : Reaches machine state state := ⟨[], rfl⟩

/-- A run goes on with any enabled action. -/
theorem Reaches.tail {first middle : State} (hreaches : Reaches machine first middle)
    {action : Action} (henabled : machine.Enabled middle action) :
    Reaches machine first (machine.effect middle action) := by
  obtain ⟨actions, hrun⟩ := hreaches
  refine ⟨actions ++ [action], ?_⟩
  induction actions generalizing first with
  | nil =>
      cases hrun
      rw [List.nil_append, run, if_pos henabled, run]
  | cons other actions ih =>
      rw [run] at hrun
      split at hrun
      · rw [List.cons_append, run, if_pos ‹_›]
        exact ih hrun
      · cases hrun

/-- What holds at first and is kept by every enabled action holds in all states
that are reached. -/
theorem Reaches.invariant {Invariant : State → Prop} {first last : State}
    (hreaches : Reaches machine first last) (hfirst : Invariant first)
    (hstep : ∀ state action, Invariant state → machine.Enabled state action →
      Invariant (machine.effect state action)) : Invariant last := by
  obtain ⟨actions, hrun⟩ := hreaches
  induction actions generalizing first with
  | nil =>
      cases hrun
      exact hfirst
  | cons action actions ih =>
      rw [run] at hrun
      split at hrun
      · exact ih (hstep first action hfirst ‹_›) hrun
      · cases hrun

end Machine

/-! ## Simulation -/

/-- Where each step from related states can be followed by steps to related states,
so can a whole run. -/
theorem exists_related_of_reflTransGen {Concrete Abstract : Type*}
    {stepConcrete : Concrete → Concrete → Prop} {stepAbstract : Abstract → Abstract → Prop}
    {Related : Concrete → Abstract → Prop} {first last : Concrete} {first' : Abstract}
    (hrun : Relation.ReflTransGen stepConcrete first last) (hfirst : Related first first')
    (hstep : ∀ state next state', stepConcrete state next → Related state state' →
      ∃ next', Relation.ReflTransGen stepAbstract state' next' ∧ Related next next') :
    ∃ last', Relation.ReflTransGen stepAbstract first' last' ∧ Related last last' := by
  induction hrun with
  | refl => exact ⟨first', .refl, hfirst⟩
  | tail _ hlast ih =>
      obtain ⟨middle', hmiddle, hrelated⟩ := ih
      obtain ⟨last', hlast', hrelated'⟩ := hstep _ _ _ hlast hrelated
      exact ⟨last', hmiddle.trans hlast', hrelated'⟩

end BlockchainDataCollection.Effect
