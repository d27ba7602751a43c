import Mathlib.Data.List.Basic

/-!
# Programs that call a service

A program returns a value, or calls a service and goes on by its answer. Nothing is
assumed of the service: it may give two answers to one question. A run of a program is the
list of its calls with the answers they got, and the value it returns (`Runs`).

The rules reason on all the runs of a program, and follow its sequence of steps: what it
ensures of its value (`Ensures.bind`), what it ensures once some event has happened
(`Surfaces.bind`), what follows from what is known of the answers (`Assuming.bind`), which
questions it asks as long as the answers are good (`Guided.bind`), and how many calls it makes
(`Counts.bind`). A program that has got some of its answers is what is left of it (`After`). A
service that is a function of the question answers a program with one value (`answer`), and what
the program ensures holds of that (`Ensures.answer`).
-/

set_option autoImplicit false

universe u

/-- A program that asks questions of type `Q`, each with answers of a type of its own. -/
inductive Program (Q : Type u) (A : Q → Type u) (α : Type u) : Type u where
  | done (value : α)
  | ask (q : Q) (next : A q → Program Q A α)

namespace Program

variable {Q : Type u} {A : Q → Type u} {α β : Type u}

def andThen : Program Q A α → (α → Program Q A β) → Program Q A β
  | .done value, f => f value
  | .ask q next, f => .ask q fun a => (next a).andThen f

instance : Monad (Program Q A) where
  pure := .done
  bind := andThen

/-- One call. -/
def call (q : Q) : Program Q A (A q) := .ask q .done

/-! ## Runs -/

/-- A call and its answer. -/
abbrev Event (A : Q → Type u) := (q : Q) × A q

/-- The program makes these calls, gets these answers and returns this value. -/
inductive Runs : Program Q A α → List (Event A) → α → Prop where
  | done (value : α) : Runs (.done value) [] value
  | ask {q : Q} {next : A q → Program Q A α} {trace : List (Event A)} {value : α} (a : A q)
      (rest : Runs (next a) trace value) : Runs (.ask q next) (⟨q, a⟩ :: trace) value

variable {p : Program Q A α} {f : α → Program Q A β} {trace : List (Event A)} {value : α}

theorem runs_pure_iff {v w : α} : Runs (pure v : Program Q A α) trace w ↔ trace = [] ∧ w = v := by
  constructor
  · rintro ⟨⟩
    exact ⟨rfl, rfl⟩
  · rintro ⟨rfl, rfl⟩
    exact .done w

theorem runs_call_iff {q : Q} {a : A q} : Runs (call q) trace a ↔ trace = [⟨q, a⟩] := by
  constructor
  · rintro (_ | ⟨_, ⟨⟩⟩)
    rfl
  · rintro rfl
    exact .ask a (.done a)

/-- A run of two programs in sequence is a run of the first and one of the second. -/
theorem runs_bind_iff {result : β} :
    Runs (p >>= f) trace result ↔ ∃ first second value, trace = first ++ second ∧
      Runs p first value ∧ Runs (f value) second result := by
  constructor
  · intro run
    induction p generalizing trace with
    | done v => exact ⟨[], trace, v, rfl, .done v, run⟩
    | ask q next ih =>
        obtain _ | ⟨a, rest⟩ := run
        obtain ⟨first, second, value, rfl, before, behind⟩ := ih a rest
        exact ⟨⟨q, a⟩ :: first, second, value, rfl, .ask a before, behind⟩
  · rintro ⟨first, second, value, rfl, before, behind⟩
    induction before with
    | done v => exact behind
    | ask a _ ih => exact .ask a (ih behind)

/-! ## What all runs ensure -/

/-- Every run returns such a value. -/
def Ensures (P : α → Prop) (p : Program Q A α) : Prop :=
  ∀ ⦃trace value⦄, p.Runs trace value → P value

theorem Ensures.pure {P : α → Prop} {v : α} (holds : P v) : (pure v : Program Q A α).Ensures P := by
  intro trace value run
  rw [(runs_pure_iff.mp run).2]
  exact holds

variable {P : α → Prop} {R : β → Prop}

theorem Ensures.bind (first : p.Ensures P) (second : ∀ value, P value → (f value).Ensures R) :
    (p >>= f).Ensures R := by
  intro trace result run
  obtain ⟨_, _, value, -, before, behind⟩ := runs_bind_iff.mp run
  exact second value (first before) behind

/-- Where nothing is known of the value of the first program. -/
theorem Ensures.step (second : ∀ value, (f value).Ensures R) : (p >>= f).Ensures R :=
  Ensures.bind (P := fun _ => True) (fun _ _ _ => trivial) fun value _ => second value

/-- A run in which an event of this kind happens returns such a value. -/
def Surfaces (bad : Event A → Prop) (P : α → Prop) (p : Program Q A α) : Prop :=
  ∀ ⦃trace value⦄, p.Runs trace value → (∃ event ∈ trace, bad event) → P value

variable {bad : Event A → Prop}

theorem Surfaces.pure {P : α → Prop} {v : α} : (pure v : Program Q A α).Surfaces bad P := by
  intro trace value run happened
  rw [(runs_pure_iff.mp run).1] at happened
  obtain ⟨event, member, -⟩ := happened
  cases member

theorem Surfaces.call {q : Q} {P : A q → Prop} (holds : ∀ a, bad ⟨q, a⟩ → P a) :
    (call q).Surfaces bad P := by
  intro trace value run happened
  rw [runs_call_iff.mp run] at happened
  obtain ⟨event, member, event_bad⟩ := happened
  rw [List.mem_singleton.mp member] at event_bad
  exact holds value event_bad

/-- What surfaces in the first program has to be passed on by the second. -/
theorem Surfaces.bind (first : p.Surfaces bad P) (passed : ∀ value, P value → (f value).Ensures R)
    (second : ∀ value, (f value).Surfaces bad R) : (p >>= f).Surfaces bad R := by
  intro trace result run happened
  obtain ⟨early, late, value, rfl, before, behind⟩ := runs_bind_iff.mp run
  obtain ⟨event, member, event_bad⟩ := happened
  rcases List.mem_append.mp member with inFirst | inSecond
  · exact passed value (first before ⟨event, inFirst, event_bad⟩) behind
  · exact second value behind ⟨event, inSecond, event_bad⟩

/-! ## What follows from the answers -/

/-- A run whose events are all good returns such a value. -/
def Assuming (good : Event A → Prop) (P : α → Prop) (p : Program Q A α) : Prop :=
  ∀ ⦃trace value⦄, p.Runs trace value → (∀ event ∈ trace, good event) → P value

section Assuming

variable {good : Event A → Prop}

theorem Assuming.pure {P : α → Prop} {v : α} (holds : P v) :
    (pure v : Program Q A α).Assuming good P := by
  intro trace value run _
  rw [(runs_pure_iff.mp run).2]
  exact holds

theorem Assuming.call {q : Q} {P : A q → Prop} (holds : ∀ a, good ⟨q, a⟩ → P a) :
    (call q).Assuming good P := by
  intro trace value run all
  rw [runs_call_iff.mp run] at all
  exact holds value (all _ (List.mem_singleton_self _))

theorem Assuming.bind (first : p.Assuming good P)
    (second : ∀ value, P value → (f value).Assuming good R) : (p >>= f).Assuming good R := by
  intro trace result run all
  obtain ⟨early, late, value, rfl, before, behind⟩ := runs_bind_iff.mp run
  rw [List.forall_mem_append] at all
  exact second value (first before all.1) behind all.2

end Assuming

/-! ## Which questions -/

/-- As long as the answers are good the program asks such questions, and returns such a value. -/
def Guided (good : Event A → Prop) (asks : Q → Prop) (P : α → Prop) : Program Q A α → Prop
  | .done value => P value
  | .ask q next => asks q ∧ ∀ a, good ⟨q, a⟩ → Guided good asks P (next a)

section Guided

variable {good : Event A → Prop} {asks : Q → Prop}

theorem Guided.pure {P : α → Prop} {v : α} (holds : P v) :
    Guided good asks P (pure v : Program Q A α) :=
  holds

theorem Guided.call {q : Q} {P : A q → Prop} (asked : asks q) (holds : ∀ a, good ⟨q, a⟩ → P a) :
    Guided good asks P (call q) :=
  ⟨asked, holds⟩

theorem Guided.bind (first : Guided good asks P p)
    (second : ∀ value, P value → Guided good asks R (f value)) : Guided good asks R (p >>= f) := by
  induction p with
  | done v => exact second v first
  | ask q next ih => exact ⟨first.1, fun a known => ih a (first.2 a known)⟩

end Guided

/-! ## What is left of a program -/

/-- After these calls with these answers this is left of the program. -/
inductive After (p : Program Q A α) : List (Event A) → Program Q A α → Prop where
  | start : After p [] p
  | step {trace : List (Event A)} {q : Q} {next : A q → Program Q A α}
      (before : After p trace (.ask q next)) (a : A q) : After p (trace ++ [⟨q, a⟩]) (next a)

theorem Guided.after {good : Event A → Prop} {asks : Q → Prop} {P : α → Prop} {rest : Program Q A α}
    (guided : Guided good asks P p) (after : After p trace rest)
    (all : ∀ event ∈ trace, good event) :
    Guided good asks P rest := by
  induction after with
  | start => exact guided
  | step before a ih =>
      rw [List.forall_mem_append] at all
      exact (ih all.1).2 a (all.2 _ (List.mem_singleton_self _))

/-! ## How many calls -/

/-- Every run returns a value that goes with the number of its calls. -/
def Counts (P : Nat → α → Prop) (p : Program Q A α) : Prop :=
  ∀ ⦃trace value⦄, p.Runs trace value → P trace.length value

theorem Counts.pure {P : Nat → α → Prop} {v : α} (holds : P 0 v) :
    (pure v : Program Q A α).Counts P := by
  intro trace value run
  obtain ⟨rfl, rfl⟩ := runs_pure_iff.mp run
  exact holds

theorem Counts.call {q : Q} {P : Nat → A q → Prop} (holds : ∀ a, P 1 a) : (call q).Counts P := by
  intro trace value run
  rw [runs_call_iff.mp run]
  exact holds value

theorem Counts.bind {P : Nat → α → Prop} {R : Nat → β → Prop} (first : p.Counts P)
    (second : ∀ n value, P n value → (f value).Counts fun m => R (n + m)) : (p >>= f).Counts R := by
  intro trace result run
  obtain ⟨early, late, value, rfl, before, behind⟩ := runs_bind_iff.mp run
  rw [List.length_append]
  exact second early.length value (first before) behind

theorem Counts.mono {P R : Nat → α → Prop} (counts : p.Counts P)
    (weaker : ∀ n value, P n value → R n value) :
    p.Counts R :=
  fun trace value run => weaker trace.length value (counts run)

/-! ## Answers by a function -/

/-- The value when every question gets the answer of a function. -/
def answer (service : (q : Q) → A q) : Program Q A α → α
  | .done value => value
  | .ask q next => (next (service q)).answer service

variable {service : (q : Q) → A q}

@[simp] theorem answer_bind :
    answer service (p >>= f) = answer service (f (answer service p)) := by
  induction p with
  | done v => rfl
  | ask q next ih => exact ih (service q)

/-- It is the value of a run. -/
theorem runs_answer (p : Program Q A α) : ∃ trace, p.Runs trace (answer service p) := by
  induction p with
  | done v => exact ⟨[], .done v⟩
  | ask q next ih =>
      obtain ⟨trace, run⟩ := ih (service q)
      exact ⟨⟨q, service q⟩ :: trace, .ask (service q) run⟩

theorem Ensures.answer {P : α → Prop} (ensured : p.Ensures P) : P (answer service p) := by
  obtain ⟨trace, run⟩ := runs_answer p
  exact ensured run

end Program
