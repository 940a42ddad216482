import Tyr.Lib.Heap

/-
  Programs that keep a record of what they do.

  A `Traced ε α` runs like a `Prog α` and lists events of type `ε` on the way, those before a
  fault included. `erase` forgets the list: it is how a traced program is compared with the
  program it was written after. `Every P x h`: all events of `x` in heap `h` satisfy `P`, with
  one rule for each way to build a program (`every_bind`).
-/

namespace Tyr

open Prog

/-- A program that lists events as it runs. -/
def Traced (ε α : Type) : Type := Heap → List ε × Except Fault (α × Heap)

namespace Traced

variable {ε α β : Type}

instance : Monad (Traced ε) where
  pure a h := ([], .ok (a, h))
  bind x f h := match x h with
    | (es, .ok (a, h')) => (es ++ (f a h').1, (f a h').2)
    | (es, .error e) => (es, .error e)

/-- Run a program without recording anything. -/
def quiet (x : Prog α) : Traced ε α := fun h => ([], x h)

def record (e : ε) : Traced ε Unit := fun h => ([e], .ok ((), h))

/-- The program without its record. -/
def erase (x : Traced ε α) : Prog α := fun h => (x h).2

/-! ## What is left without the record -/

@[simp] theorem erase_pure (a : α) : (pure a : Traced ε α).erase = pure a := rfl

@[simp] theorem erase_quiet (x : Prog α) : (quiet x : Traced ε α).erase = x := rfl

@[simp] theorem erase_bind (x : Traced ε α) (f : α → Traced ε β) :
    (x >>= f).erase = x.erase >>= fun a => (f a).erase := by
  funext h
  show (match x h with
    | (es, .ok (a, h')) => (es ++ (f a h').1, (f a h').2)
    | (es, .error e) => (es, .error e) : List ε × Except Fault (β × Heap)).2 = _
  rcases hx : x h with ⟨es, e | ⟨a, h'⟩⟩
  · exact (bind_of_error (x := x.erase) (congrArg Prod.snd hx)).symm
  · exact (bind_of_ok (x := x.erase) (f := fun a => (f a).erase) (congrArg Prod.snd hx)).symm

@[simp] theorem erase_record (e : ε) : (record e).erase = pure () := rfl

@[simp] theorem erase_ite {p : Prop} [Decidable p] (x y : Traced ε α) :
    (if p then x else y).erase = if p then x.erase else y.erase := by
  split <;> rfl

/-! ## Runs -/

theorem run_quiet {x : Prog α} {h h' : Heap} {a : α} (hx : x h = .ok (a, h')) :
    (quiet x : Traced ε α) h = ([], .ok (a, h')) := by
  unfold quiet
  rw [hx]

theorem run_bind {x : Traced ε α} {f : α → Traced ε β} {h h' : Heap} {es : List ε} {a : α}
    (hx : x h = (es, .ok (a, h'))) : (x >>= f) h = (es ++ (f a h').1, (f a h').2) := by
  show (match x h with
    | (es, .ok (a, h')) => (es ++ (f a h').1, (f a h').2)
    | (es, .error e) => (es, .error e) : List ε × Except Fault (β × Heap)) = _
  rw [hx]

/-- The first part's events come first, whether it ends normally or not. -/
theorem exists_run_bind (x : Traced ε α) (f : α → Traced ε β) (h : Heap) :
    ∃ es, ((x >>= f) h).1 = (x h).1 ++ es := by
  rcases hx : x h with ⟨es, e | ⟨a, h'⟩⟩
  · refine ⟨[], ?_⟩
    show (match x h with
      | (es, .ok (a, h')) => (es ++ (f a h').1, (f a h').2)
      | (es, .error e) => (es, .error e) : List ε × Except Fault (β × Heap)).1 = _
    rw [hx, List.append_nil]
  · exact ⟨(f a h').1, by rw [run_bind hx]⟩

/-! ## What is in the record -/

/-- All that `x` records satisfies `P`. -/
def Every (P : ε → Prop) (x : Traced ε α) (h : Heap) : Prop := ∀ e ∈ (x h).1, P e

variable {P : ε → Prop} {x : Traced ε α} {f : α → Traced ε β} {h : Heap}

theorem every_pure (a : α) : Every P (pure a : Traced ε α) h := fun _ he => nomatch he

theorem every_quiet (x : Prog α) : Every P (quiet x) h := fun _ he => nomatch he

@[simp] theorem every_record {e : ε} : Every P (record e) h ↔ P e := by
  unfold Every record
  simp

theorem every_bind :
    Every P (x >>= f) h ↔
      Every P x h ∧ ∀ a h', x.erase h = .ok (a, h') → Every P (f a) h' := by
  have hbind : ((x >>= f) h).1 = (match x h with
    | (es, .ok (a, h')) => (es ++ (f a h').1, (f a h').2)
    | (es, .error e) => (es, .error e) : List ε × Except Fault (β × Heap)).1 := rfl
  unfold Every erase
  rw [hbind]
  rcases x h with ⟨es, e | ⟨a, h'⟩⟩
  · constructor
    · exact fun hall => ⟨hall, fun a h' hx => nomatch hx⟩
    · exact fun hall => hall.1
  · constructor
    · intro hall
      refine ⟨fun e he => hall e (List.mem_append_left _ he), fun b g hx => ?_⟩
      obtain ⟨rfl, rfl⟩ := Prod.mk.inj (Except.ok.inj hx)
      exact fun e he => hall e (List.mem_append_right _ he)
    · rintro ⟨hx, hf⟩ e he
      rcases List.mem_append.mp he with he | he
      · exact hx e he
      · exact hf a h' rfl e he

/-- What comes after a part that ends normally. -/
theorem Every.after (hall : Every P (x >>= f) h) {a : α} {h' : Heap}
    (hx : x.erase h = .ok (a, h')) : Every P (f a) h' := (every_bind.mp hall).2 a h' hx

/-- In a run that ends normally the first part does, and the second part begins there. -/
theorem Every.next (hall : Every P (x >>= f) h) {r : β × Heap}
    (hok : (x >>= f).erase h = .ok r) :
    ∃ a h', x.erase h = .ok (a, h') ∧ Every P x h ∧ Every P (f a) h' ∧
      (f a).erase h' = .ok r := by
  rw [erase_bind] at hok
  obtain ⟨a, h', hx, hf⟩ := bind_eq_ok hok
  obtain ⟨hfirst, hrest⟩ := every_bind.mp hall
  exact ⟨a, h', hx, hfirst, hrest a h' hx, hf⟩

/-- What is recorded first. -/
theorem every_record_bind {e : ε} {f : Unit → Traced ε β} :
    Every P (record e >>= f) h ↔ P e ∧ Every P (f ()) h := by
  rw [every_bind, every_record]
  constructor
  · exact fun hall => ⟨hall.1, hall.2 () h rfl⟩
  · rintro ⟨he, hf⟩
    refine ⟨he, fun a h' hx => ?_⟩
    obtain ⟨-, rfl⟩ := Prod.mk.inj (Except.ok.inj hx)
    exact hf

theorem every_quiet_bind {y : Prog α} :
    Every P (quiet y >>= f) h ↔ ∀ a h', y h = .ok (a, h') → Every P (f a) h' := by
  rw [every_bind]
  exact ⟨fun hall => hall.2, fun hall => ⟨every_quiet y, hall⟩⟩

end Traced

end Tyr
