import BlockchainDataCollection.Effect.Program

/-!
# Typestates

A typestate says which calls a program may make in which phase, and into which
phase an answered call leads.  A program conforms to it when it keeps to this
whatever the answers are, as far as they are as given.
-/

namespace BlockchainDataCollection.Effect

structure Typestate (S : Signature) (E Phase : Type) where
  /-- The answers a program has to cope with. -/
  given : Program.Event S E → Prop
  /-- The calls that may come next. -/
  expects : Phase → S.Call → Prop
  /-- The phases an answered call may lead to. -/
  advance : Phase → Program.Event S E → Phase → Prop
  /-- The phases in which a program may raise or be cut off. -/
  rests : Phase → Prop

namespace Program

variable {S : Signature} {E A B Phase : Type} (typestate : Typestate S E Phase)

/-- From a phase on, the program keeps to the typestate; a returned value and
the last phase satisfy `post`. -/
def Conforms (post : A → Phase → Prop) : Program S E A → Phase → Prop
  | .done value, phase => post value phase
  | .raise _, phase => typestate.rests phase
  | .suspended, phase => typestate.rests phase
  | .call op next, phase => typestate.expects phase op ∧
      ∀ answer, typestate.given ⟨op, answer⟩ →
        ∃ phase', typestate.advance phase ⟨op, answer⟩ phase' ∧ (next answer).Conforms post phase'

section Rules

variable {typestate} {post : A → Phase → Prop} {phase : Phase}

theorem Conforms.mono {post' : A → Phase → Prop} {program : Program S E A}
    (h : program.Conforms typestate post phase)
    (hpost : ∀ value phase, post value phase → post' value phase) :
    program.Conforms typestate post' phase := by
  induction program generalizing phase with
  | done value => exact hpost value phase h
  | raise error => exact h
  | suspended => exact h
  | call op next ih =>
      refine ⟨h.1, fun answer hgiven => ?_⟩
      obtain ⟨phase', hadvance, hnext⟩ := h.2 answer hgiven
      exact ⟨phase', hadvance, ih answer hnext⟩

theorem conforms_bind {program : Program S E A} {rest : A → Program S E B}
    {post : B → Phase → Prop}
    (h : program.Conforms typestate (fun value => (rest value).Conforms typestate post) phase) :
    (program >>= rest).Conforms typestate post phase := by
  induction program generalizing phase with
  | done value => exact h
  | raise error => exact h
  | suspended => exact h
  | call op next ih =>
      refine ⟨h.1, fun answer hgiven => ?_⟩
      obtain ⟨phase', hadvance, hnext⟩ := h.2 answer hgiven
      exact ⟨phase', hadvance, ih answer hnext⟩

theorem Conforms.bind {program : Program S E A} {rest : A → Program S E B}
    {post' : B → Phase → Prop} (hfirst : program.Conforms typestate post phase)
    (hrest : ∀ value phase, post value phase → (rest value).Conforms typestate post' phase) :
    (program >>= rest).Conforms typestate post' phase :=
  conforms_bind (hfirst.mono hrest)

/-- One call: an answer leads to a phase with the postcondition, an error to one
of rest. -/
theorem conforms_perform {op : S.Call} {post : S.Answer op → Phase → Prop}
    (hexpects : typestate.expects phase op)
    (hok : ∀ answer, typestate.given ⟨op, .ok answer⟩ →
      ∃ phase', typestate.advance phase ⟨op, .ok answer⟩ phase' ∧ post answer phase')
    (herror : ∀ error, typestate.given ⟨op, .error error⟩ →
      ∃ phase', typestate.advance phase ⟨op, .error error⟩ phase' ∧ typestate.rests phase') :
    (perform op).Conforms typestate post phase := by
  refine ⟨hexpects, fun answer hgiven => ?_⟩
  cases answer with
  | ok answer => exact hok answer hgiven
  | error error => exact herror error hgiven

/-- A handler takes over in a phase of rest. -/
theorem Conforms.rescue {handler : E → Option (Program S E A)} {program : Program S E A}
    (h : program.Conforms typestate post phase)
    (hhandler : ∀ error rescued, handler error = some rescued →
      ∀ phase, typestate.rests phase → rescued.Conforms typestate post phase) :
    (program.rescue handler).Conforms typestate post phase := by
  induction program generalizing phase with
  | done value => exact h
  | raise error =>
      rw [Program.rescue]
      cases hcaught : handler error with
      | none => exact h
      | some rescued => exact hhandler error rescued hcaught phase h
  | suspended => exact h
  | call op next ih =>
      refine ⟨h.1, fun answer hgiven => ?_⟩
      obtain ⟨phase', hadvance, hnext⟩ := h.2 answer hgiven
      exact ⟨phase', hadvance, ih answer hnext⟩

end Rules

/-! ## Restricted calls -/

section Limiting

variable {limited : S.Call → Prop}

/-- Some calls are limited to the programs in phase `true`. -/
def limiting (limited : S.Call → Prop) : Typestate S E Bool where
  given _ := True
  expects phase op := limited op → phase = true
  advance phase _ phase' := phase' = phase
  rests _ := True

theorem conforms_limiting (program : Program S E A) :
    program.Conforms (limiting limited) (fun _ _ => True) true := by
  induction program with
  | done value => trivial
  | raise error => trivial
  | suspended => trivial
  | call op next ih => exact ⟨fun _ => rfl, fun answer _ => ⟨true, rfl, ih answer⟩⟩

/-- A program that conforms to a typestate without limited calls makes none. -/
theorem Conforms.limiting {typestate : Typestate S E Phase} {post : A → Phase → Prop}
    {program : Program S E A} {phase : Phase} (h : program.Conforms typestate post phase)
    (hgiven : ∀ event, typestate.given event)
    (hexpects : ∀ phase op, typestate.expects phase op → ¬ limited op) :
    program.Conforms (limiting limited) (fun _ phase => phase = false) false := by
  induction program generalizing phase with
  | done value => exact rfl
  | raise error => trivial
  | suspended => trivial
  | call op next ih =>
      refine ⟨fun hlimited => absurd hlimited (hexpects phase op h.1), fun answer _ => ?_⟩
      obtain ⟨phase', _, hnext⟩ := h.2 answer (hgiven _)
      exact ⟨false, rfl, ih answer hnext⟩

/-- No limited call is made from phase `false` on. -/
theorem Conforms.not_limited {post : A → Bool → Prop} {program : Program S E A}
    (h : program.Conforms (Program.limiting limited) post false) {events : List (Event S E)}
    {outcome : Outcome E A} (hruns : Runs program events outcome) :
    ∀ event ∈ events, ¬ limited event.op := by
  induction hruns with
  | observed => simp
  | done => simp
  | raise => simp
  | @call op next answer events outcome hruns ih =>
      obtain ⟨phase', rfl, hnext⟩ := h.2 answer trivial
      exact List.forall_mem_cons.mpr ⟨fun hlimited => Bool.false_ne_true (h.1 hlimited), ih hnext⟩

end Limiting

end Program

end BlockchainDataCollection.Effect
