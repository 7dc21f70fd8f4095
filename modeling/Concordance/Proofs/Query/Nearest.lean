import Mathlib.Data.List.Forall2

/-!
# The nearest number

`IsNearest test n answer` says that `answer` is the least number from `n` on that passes a test, or
nothing if none does. Seeks for documents and for positions are both judged by it. There is only one
such answer (`IsNearest.unique`), and it stays the answer for every later `n` up to itself
(`IsNearest.later`), which is what makes kept answers good.
-/

namespace Concordance

/-- An answer is the least number from `n` on that passes a test, or nothing if there is none. -/
def IsNearest (test : Nat → Prop) (n : Nat) : Option Nat → Prop
  | some d => n ≤ d ∧ test d ∧ ∀ e, n ≤ e → e < d → ¬ test e
  | none => ∀ e, n ≤ e → ¬ test e

namespace IsNearest

variable {test : Nat → Prop} {n m : Nat} {answer : Option Nat}

theorem unique {other : Option Nat} (h : IsNearest test n answer) (h' : IsNearest test n other) :
    answer = other := by
  cases answer with
  | none =>
      cases other with
      | none => rfl
      | some d => exact absurd h'.2.1 (h d h'.1)
  | some d =>
      cases other with
      | none => exact absurd h.2.1 (h' d h.1)
      | some e =>
          obtain ⟨hd, htest, hleast⟩ := h
          obtain ⟨he, htest', hleast'⟩ := h'
          rcases Nat.lt_trichotomy d e with hlt | heq | hgt
          · exact absurd htest (hleast' d hd hlt)
          · rw [heq]
          · exact absurd htest' (hleast e he hgt)

/-- An answer from `n` on also answers from a later number on that it does not lie before. -/
theorem later (h : IsNearest test n answer) (hnm : n ≤ m) (hm : ∀ d ∈ answer, m ≤ d) :
    IsNearest test m answer := by
  cases answer with
  | none => exact fun e he => h e (Nat.le_trans hnm he)
  | some d =>
      obtain ⟨-, htest, hleast⟩ := h
      exact ⟨hm d rfl, htest, fun e he hlt => hleast e (Nat.le_trans hnm he) hlt⟩

/-- An answer from `m` on also answers from an earlier number on if nothing in between passes. -/
theorem earlier (h : IsNearest test m answer) (hnm : n ≤ m)
    (hnone : ∀ e, n ≤ e → e < m → ¬ test e) : IsNearest test n answer := by
  have hsplit : ∀ e, n ≤ e → (m ≤ e → ¬ test e) → ¬ test e := by
    intro e he hlater
    rcases Nat.lt_or_ge e m with hlt | hge
    · exact hnone e he hlt
    · exact hlater hge
  cases answer with
  | none => exact fun e he => hsplit e he (h e)
  | some d =>
      obtain ⟨hd, htest, hleast⟩ := h
      exact ⟨Nat.le_trans hnm hd, htest,
        fun e he hlt => hsplit e he fun hge => hleast e hge hlt⟩

/-- From a number that passes the test on, it is the answer itself. -/
theorem eq_self_iff (h : IsNearest test n answer) : answer = some n ↔ test n := by
  constructor
  · rintro rfl
    exact h.2.1
  · intro hn
    have hself : IsNearest test n (some n) :=
      ⟨Nat.le_refl n, hn, fun e he hlt => absurd hlt (Nat.not_lt.mpr he)⟩
    exact h.unique hself

/-- The answer passes the test. -/
theorem passes {d : Nat} (h : IsNearest test n (some d)) : test d := h.2.1

/-- An answer lies no farther than any number that passes the test. -/
theorem exists_le (h : IsNearest test n answer) {e : Nat} (he : n ≤ e) (hpass : test e) :
    ∃ d, answer = some d ∧ d ≤ e := by
  cases answer with
  | none => exact absurd hpass (h e he)
  | some d =>
      refine ⟨d, rfl, Nat.not_lt.mp fun hlt => ?_⟩
      exact h.2.2 e he hlt hpass

theorem congr {test' : Nat → Prop} (h : IsNearest test n answer)
    (hiff : ∀ e, n ≤ e → (test e ↔ test' e)) : IsNearest test' n answer := by
  cases answer with
  | none => exact fun e he => mt (hiff e he).mpr (h e he)
  | some d =>
      obtain ⟨hd, htest, hleast⟩ := h
      exact ⟨hd, (hiff d hd).mp htest, fun e he hlt => mt (hiff e he).mpr (hleast e he hlt)⟩

/-- In a list that ascends by some key, the first entry from `n` on has the nearest key. -/
theorem find? {α : Type} {key : α → Nat} {l : List α}
    (hascend : l.Pairwise fun a b => key a < key b) (n : Nat) :
    IsNearest (fun d => ∃ a ∈ l, key a = d) n ((l.find? (n ≤ key ·)).map key) := by
  induction l with
  | nil =>
      intro e he
      simp
  | cons a rest ih =>
      obtain ⟨hfirst, hrest⟩ := List.pairwise_cons.mp hascend
      rw [List.find?_cons]
      by_cases ha : n ≤ key a
      · simp only [ha, decide_true, Option.map_some]
        refine ⟨ha, ⟨a, List.mem_cons_self, rfl⟩, ?_⟩
        rintro e - hlt ⟨b, hb, rfl⟩
        rcases List.mem_cons.mp hb with rfl | hb
        · omega
        · have := hfirst b hb
          omega
      · simp only [ha, decide_false]
        refine (ih hrest).congr fun e he => ⟨?_, ?_⟩
        · rintro ⟨b, hb, hkey⟩
          exact ⟨b, List.mem_cons_of_mem _ hb, hkey⟩
        · rintro ⟨b, hb, hkey⟩
          rcases List.mem_cons.mp hb with rfl | hb
          · omega
          · exact ⟨b, hb, hkey⟩

/-- Of the answers for several tests, the least one answers for all of them together. -/
theorem min? {α : Type} {tests : α → Nat → Prop} {answers : List (Option Nat)} {l : List α}
    (h : List.Forall₂ (fun a answer => IsNearest (tests a) n answer) l answers) :
    IsNearest (fun d => ∃ a ∈ l, tests a d) n (answers.filterMap id).min? := by
  induction h with
  | nil =>
      intro e he
      simp
  | @cons a answer l answers hfirst _ ih =>
      -- the least answer of the rest and the first one are compared
      cases answer with
      | none =>
          refine ih.congr fun e he => ?_
          have := hfirst e he
          simp [this]
      | some d =>
          obtain ⟨hd, htest, hleast⟩ := hfirst
          have hcons : (some d :: answers).filterMap id = d :: answers.filterMap id := rfl
          rw [hcons, List.min?_cons]
          cases hmin : (answers.filterMap id).min? with
          | none =>
              rw [hmin] at ih
              refine ⟨hd, ⟨a, List.mem_cons_self, htest⟩, ?_⟩
              rintro e he hlt ⟨b, hb, hpass⟩
              rcases List.mem_cons.mp hb with rfl | hb
              · exact hleast e he hlt hpass
              · exact ih e he ⟨b, hb, hpass⟩
          | some m =>
              rw [hmin] at ih
              obtain ⟨hm, ⟨c, hc, htest'⟩, hleast'⟩ := ih
              simp only [Option.elim_some]
              refine ⟨Nat.le_min.mpr ⟨hd, hm⟩, ?_, ?_⟩
              · rcases Nat.le_total d m with hle | hle
                · rw [Nat.min_eq_left hle]
                  exact ⟨a, List.mem_cons_self, htest⟩
                · rw [Nat.min_eq_right hle]
                  exact ⟨c, List.mem_cons_of_mem _ hc, htest'⟩
              · rintro e he hlt ⟨b, hb, hpass⟩
                rcases List.mem_cons.mp hb with rfl | hb
                · exact hleast e he (by omega) hpass
                · exact hleast' e he (by omega) ⟨b, hb, hpass⟩

end IsNearest

end Concordance
