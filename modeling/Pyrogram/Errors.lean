import Mathlib.Tactic.Common

/-!
# Exceptions

The exceptions that reading a packet may raise, by class where some caller tells
the classes apart, and `SecurityCheckMismatch.check`.
-/

namespace Pyrogram

inductive Exc
  | valueError (msg : String)
  /-- Of `objects[id]`: the constructor id that is not in the table. -/
  | keyError (id : ℕ)
  | overflowError (msg : String)
  | connectionError (msg : String)
  | securityCheckMismatch (msg : String)
  /-- Any other exception a `read` raises, by its class. -/
  | other (cls : String)
  deriving DecidableEq, Repr

/-- What `except ValueError` catches. -/
def Exc.IsValueError : Exc → Prop
  | .valueError _ => True
  | _ => False

instance : DecidablePred Exc.IsValueError := fun e => by
  cases e <;> unfold Exc.IsValueError <;> infer_instance

/-- `SecurityCheckMismatch.check`. -/
def SecurityCheckMismatch.check (cond : Bool) (msg : String) : Except Exc Unit :=
  if cond then .ok () else .error (.securityCheckMismatch ("Check failed: " ++ msg))

theorem SecurityCheckMismatch.check_eq_ok {cond : Bool} {msg : String} {u : Unit} :
    check cond msg = .ok u ↔ cond = true := by
  unfold check
  cases cond <;> simp

@[simp] theorem Except.bind_ok {ε α β : Type} (a : α) (f : α → Except ε β) :
    (Except.ok a >>= f) = f a := rfl

@[simp] theorem Except.bind_error {ε α β : Type} (e : ε) (f : α → Except ε β) :
    ((Except.error e : Except ε α) >>= f) = .error e := rfl

theorem SecurityCheckMismatch.check_eq_error {cond : Bool} {msg : String} {e : Exc} :
    check cond msg = .error e ↔
      cond = false ∧ .securityCheckMismatch ("Check failed: " ++ msg) = e := by
  unfold check
  cases cond <;> simp

/-- An exception of a computation is one of its first part or one of the rest. -/
theorem Except.bind_eq_error {ε α β : Type} {x : Except ε α} {f : α → Except ε β} {e : ε} :
    (x >>= f) = .error e ↔ x = .error e ∨ ∃ a, x = .ok a ∧ f a = .error e := by
  cases x with
  | error e' => simp [bind, Except.bind]
  | ok a => simp [bind, Except.bind]

/-- A computation that raises nothing gave a value to the rest. -/
theorem Except.bind_eq_ok {ε α β : Type} {x : Except ε α} {f : α → Except ε β} {b : β} :
    (x >>= f) = .ok b ↔ ∃ a, x = .ok a ∧ f a = .ok b := by
  cases x with
  | error e => simp [bind, Except.bind]
  | ok a => simp [bind, Except.bind]

theorem Except.map_eq_ok {ε α β : Type} {f : α → β} {x : Except ε α} {b : β} :
    f <$> x = .ok b ↔ ∃ a, x = .ok a ∧ f a = b := by
  cases x <;> simp [Functor.map, Except.map]

/-- A computation on each entry of a list gives values that match the list. -/
theorem Except.mapM_eq_ok {ε α β : Type} {f : α → Except ε β} {l : List α} {l' : List β} :
    l.mapM f = .ok l' ↔ List.Forall₂ (fun a b => f a = .ok b) l l' := by
  induction l generalizing l' with
  | nil =>
    constructor
    · rintro ⟨⟩
      exact .nil
    · rintro ⟨⟩
      rfl
  | cons a l ih =>
    rw [List.mapM_cons, Except.bind_eq_ok]
    constructor
    · rintro ⟨b, hb, h⟩
      obtain ⟨bs, hbs, h⟩ := Except.bind_eq_ok.mp h
      cases h
      exact .cons hb (ih.mp hbs)
    · rintro (_ | ⟨hb, hbs⟩)
      exact ⟨_, hb, Except.bind_eq_ok.mpr ⟨_, ih.mpr hbs, rfl⟩⟩

theorem Except.exists_mem_of_mapM {ε α β : Type} {f : α → Except ε β} {l : List α} {l' : List β}
    (h : l.mapM f = .ok l') {a : α} (ha : a ∈ l) : ∃ b ∈ l', f a = .ok b := by
  obtain hall := Except.mapM_eq_ok.mp h
  clear h
  induction hall with
  | nil => cases ha
  | cons hb _ ih =>
    rcases List.mem_cons.mp ha with rfl | ha
    · exact ⟨_, List.mem_cons_self, hb⟩
    · obtain ⟨b, hb, hf⟩ := ih ha
      exact ⟨b, List.mem_cons_of_mem _ hb, hf⟩

theorem Except.exists_of_mem_mapM {ε α β : Type} {f : α → Except ε β} {l : List α} {l' : List β}
    (h : l.mapM f = .ok l') {b : β} (hb : b ∈ l') : ∃ a ∈ l, f a = .ok b := by
  obtain hall := Except.mapM_eq_ok.mp h
  clear h
  induction hall with
  | nil => cases hb
  | cons ha _ ih =>
    rcases List.mem_cons.mp hb with rfl | hb
    · exact ⟨_, List.mem_cons_self, ha⟩
    · obtain ⟨a, ha, hf⟩ := ih hb
      exact ⟨a, List.mem_cons_of_mem _ ha, hf⟩

theorem Except.exists_mapM_eq_ok {ε α β : Type} {f : α → Except ε β} {l : List α} :
    (∃ l', l.mapM f = .ok l') ↔ ∀ a ∈ l, ∃ b, f a = .ok b := by
  simp only [Except.mapM_eq_ok]
  induction l with
  | nil => exact ⟨fun _ a ha => absurd ha List.not_mem_nil, fun _ => ⟨[], .nil⟩⟩
  | cons a l ih =>
    rw [List.forall_mem_cons, ← ih]
    constructor
    · rintro ⟨_, _ | ⟨hb, hbs⟩⟩
      exact ⟨⟨_, hb⟩, _, hbs⟩
    · rintro ⟨⟨b, hb⟩, bs, hbs⟩
      exact ⟨b :: bs, .cons hb hbs⟩

theorem Except.mapError_eq_ok {ε ε' α : Type} {f : ε → ε'} {x : Except ε α} {a : α} :
    x.mapError f = .ok a ↔ x = .ok a := by
  cases x <;> simp [Except.mapError]

theorem Except.mapError_eq_error {ε ε' α : Type} {f : ε → ε'} {x : Except ε α} {e : ε'} :
    x.mapError f = .error e ↔ ∃ e', x = .error e' ∧ f e' = e := by
  cases x <;> simp [Except.mapError]

end Pyrogram
