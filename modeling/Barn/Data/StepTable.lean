import Mathlib.Algebra.Order.Ring.Int
import Mathlib.Data.List.Basic
import Mathlib.Tactic.Linarith

/-!
# Step tables

A table of thresholds, each with the value that holds after it. `stepAt` looks a value up. Adding
the value to a place and looking it up there gives another value only just before a threshold
(`stepAt_add_iff`); subtracting it keeps the order of places except around a threshold
(`sub_stepAt_mono`, and for two places exactly `sub_stepAt_add_le_iff`).
-/

namespace StepTable

/-- The value after the last threshold that is less than the place, 0 if there is none. -/
def stepAt (table : List (ℤ × ℤ)) (place : ℤ) : ℤ :=
  ((table.reverse.find? fun entry => entry.1 < place).map Prod.snd).getD 0

/-- The value after the last threshold of a table. -/
def lastStep (table : List (ℤ × ℤ)) : ℤ :=
  (table.getLast?.map Prod.snd).getD 0

/-- Values increase, and each threshold is further away from the one before it than the value
there, in some unit. -/
structure Spaced (unit : ℤ) (table : List (ℤ × ℤ)) : Prop where
  unit_nonneg : 0 ≤ unit
  nonneg : ∀ entry ∈ table, 0 ≤ entry.2
  apart : table.Pairwise fun first second =>
    first.1 < second.1 ∧ first.1 + unit * first.2 ≤ second.1 ∧ first.2 < second.2

/-- A threshold lies at the first place or after it and before the second one, and its value exceeds
the value before it by more than the distance of the places, less a margin. -/
def Overtakes (unit : ℤ) (table : List (ℤ × ℤ)) (first second margin : ℤ) : Prop :=
  ∃ before entry after, table = before ++ entry :: after ∧ first ≤ entry.1 ∧ entry.1 < second ∧
    second - first < unit * (entry.2 - lastStep before) + margin

variable {unit place : ℤ} {table before after : List (ℤ × ℤ)} {entry : ℤ × ℤ}

@[simp] theorem lastStep_nil : lastStep [] = 0 := rfl

@[simp] theorem lastStep_concat : lastStep (before ++ [entry]) = entry.2 := by
  simp [lastStep]

/-- The value between two parts of the table. -/
theorem stepAt_append (hbefore : ∀ entry ∈ before, entry.1 < place)
    (hafter : ∀ entry ∈ after, place ≤ entry.1) :
    stepAt (before ++ after) place = lastStep before := by
  have hskip : after.reverse.find? (fun entry => entry.1 < place) = none := by
    rw [List.find?_eq_none]
    intro entry hentry
    simpa using hafter entry (List.mem_reverse.1 hentry)
  rw [stepAt, List.reverse_append, List.find?_append, hskip, Option.none_or]
  rcases List.eq_nil_or_concat' before with rfl | ⟨first, last, rfl⟩
  · rfl
  · have hlast : last.1 < place := hbefore last (List.mem_append_right _ List.mem_cons_self)
    rw [lastStep_concat, List.reverse_append, List.reverse_singleton, List.singleton_append,
      List.find?_cons_of_pos (by simpa using hlast)]
    rfl

/-- Values are those of the table. -/
theorem stepAt_le {bound : ℤ} (hbound : 0 ≤ bound) (h : ∀ entry ∈ table, entry.2 ≤ bound)
    (place : ℤ) : stepAt table place ≤ bound := by
  unfold stepAt
  cases hfind : table.reverse.find? fun entry => entry.1 < place with
  | none => exact hbound
  | some entry => exact h entry (List.mem_reverse.1 (List.mem_of_find?_eq_some hfind))

namespace Spaced

/-- A part of the table is spaced, too. -/
theorem of_append (h : Spaced unit (before ++ after)) : Spaced unit before where
  unit_nonneg := h.unit_nonneg
  nonneg := fun entry hentry => h.nonneg entry (List.mem_append_left _ hentry)
  apart := (List.pairwise_append.1 h.apart).1

/-- Each place is between two parts of the table. -/
theorem exists_split (h : Spaced unit table) (place : ℤ) :
    ∃ before after, table = before ++ after ∧ (∀ entry ∈ before, entry.1 < place) ∧
      ∀ entry ∈ after, place ≤ entry.1 := by
  have hpairwise := h.apart
  clear h
  induction table with
  | nil => exact ⟨[], [], rfl, by simp, by simp⟩
  | cons entry table ih =>
      rw [List.pairwise_cons] at hpairwise
      by_cases hentry : entry.1 < place
      · obtain ⟨before, after, rfl, hbefore, hafter⟩ := ih hpairwise.2
        refine ⟨entry :: before, after, rfl, fun other hother => ?_, hafter⟩
        rcases List.mem_cons.1 hother with rfl | hlater
        · exact hentry
        · exact hbefore other hlater
      · refine ⟨[], entry :: table, rfl, by simp, fun other hother => ?_⟩
        rcases List.mem_cons.1 hother with rfl | hlater
        · exact not_lt.1 hentry
        · exact (not_lt.1 hentry).trans (hpairwise.1 other hlater).1.le

/-- The last value of a table is not negative. -/
theorem lastStep_nonneg (h : Spaced unit table) : 0 ≤ lastStep table := by
  rcases List.eq_nil_or_concat' table with rfl | ⟨first, last, rfl⟩
  · exact le_rfl
  · rw [lastStep_concat]
    exact h.nonneg last (List.mem_append_right _ List.mem_cons_self)

/-- The value at a place is at least that of each threshold before it. -/
theorem le_stepAt (h : Spaced unit table) (hentry : entry ∈ table) (hplace : entry.1 < place) :
    entry.2 ≤ stepAt table place := by
  obtain ⟨before, after, rfl, hbefore, hafter⟩ := h.exists_split place
  rw [stepAt_append hbefore hafter]
  have hmem : entry ∈ before := by
    rcases List.mem_append.1 hentry with hmem | hmem
    · exact hmem
    · exact absurd hplace (not_lt.2 (hafter entry hmem))
  rcases List.eq_nil_or_concat' before with rfl | ⟨first, last, rfl⟩
  · simp at hmem
  · rw [lastStep_concat]
    have hpairwise := h.of_append.apart
    rw [List.pairwise_append] at hpairwise
    rcases List.mem_append.1 hmem with hfirst | hlast
    · exact (hpairwise.2.2 entry hfirst last List.mem_cons_self).2.2.le
    · rw [List.mem_singleton.1 hlast]

/-- The value between two thresholds that follow each other. -/
theorem stepAt_between {first second : ℤ × ℤ}
    (h : Spaced unit (before ++ first :: second :: after)) (hfirst : first.1 < place)
    (hsecond : place ≤ second.1) :
    stepAt (before ++ first :: second :: after) place = first.2 := by
  have hpairwise := h.apart
  rw [List.pairwise_append, List.pairwise_cons, List.pairwise_cons] at hpairwise
  obtain ⟨_, ⟨_, hlater, _⟩, hearlier⟩ := hpairwise
  have hsplit : before ++ first :: second :: after = (before ++ [first]) ++ second :: after := by
    simp
  rw [hsplit, stepAt_append (fun entry hentry => ?_) (fun entry hentry => ?_), lastStep_concat]
  · rcases List.mem_append.1 hentry with hbefore | hlast
    · exact (hearlier entry hbefore first List.mem_cons_self).1.trans hfirst
    · rwa [List.mem_singleton.1 hlast]
  · rcases List.mem_cons.1 hentry with rfl | hafter
    · exact hsecond
    · exact hsecond.trans (hlater entry hafter).1.le

/-- Adding the value leads to the same value, except just before a threshold. -/
theorem stepAt_add_iff (h : Spaced unit table) (place : ℤ) :
    stepAt table (place + unit * stepAt table place) = stepAt table place ↔
      ∀ before first second after, table = before ++ first :: second :: after →
        ¬(second.1 - unit * first.2 < place ∧ place ≤ second.1) := by
  constructor
  · rintro hsame before first second after rfl ⟨hlow, hhigh⟩
    have hpairwise := h.apart
    rw [List.pairwise_append, List.pairwise_cons] at hpairwise
    obtain ⟨_, hspace, hless⟩ := hpairwise.2.1.1 second List.mem_cons_self
    rw [h.stepAt_between (by omega) hhigh] at hsame
    -- The place goes beyond the second threshold, where the values are greater.
    have hgreater : second.2 ≤ stepAt (before ++ first :: second :: after)
        (place + unit * first.2) := h.le_stepAt (by simp) (by omega)
    omega
  · intro hclear
    obtain ⟨before, after, rfl, hbefore, hafter⟩ := h.exists_split place
    rw [stepAt_append hbefore hafter]
    have hnonneg : 0 ≤ unit * lastStep before :=
      mul_nonneg h.unit_nonneg h.of_append.lastStep_nonneg
    refine stepAt_append (fun entry hentry => ?_) fun entry hentry => ?_
    · have hless := hbefore entry hentry
      omega
    · rcases List.eq_nil_or_concat' before with rfl | ⟨earlier, first, rfl⟩
      · rw [lastStep_nil, mul_zero, add_zero]
        exact hafter entry hentry
      · cases after with
        | nil => simp at hentry
        | cons second later =>
            have hwindow := hclear earlier first second later (by simp)
            have hplace := hafter second List.mem_cons_self
            have hsecond : second.1 ≤ entry.1 := by
              rcases List.mem_cons.1 hentry with rfl | hlater
              · exact le_rfl
              · have hpairwise := (List.pairwise_append.1 h.apart).2.1
                exact ((List.pairwise_cons.1 hpairwise).1 entry hlater).1.le
            rw [lastStep_concat]
            omega

/-- Values are not negative. -/
theorem stepAt_nonneg (h : Spaced unit table) (place : ℤ) : 0 ≤ stepAt table place := by
  obtain ⟨before, after, rfl, hbefore, hafter⟩ := h.exists_split place
  rw [stepAt_append hbefore hafter]
  exact h.of_append.lastStep_nonneg

/-- Values do not decrease. -/
theorem stepAt_mono (h : Spaced unit table) {first second : ℤ} (hle : first ≤ second) :
    stepAt table first ≤ stepAt table second := by
  obtain ⟨before, after, rfl, hbefore, hafter⟩ := h.exists_split first
  rw [stepAt_append hbefore hafter]
  rcases List.eq_nil_or_concat' before with rfl | ⟨earlier, last, rfl⟩
  · exact h.stepAt_nonneg second
  · rw [lastStep_concat]
    have hlast : last.1 < first := hbefore last (List.mem_append_right _ List.mem_cons_self)
    exact h.le_stepAt (by simp) (hlast.trans_le hle)

/-- Subtracting the value from a place up to a threshold leads to no greater place than from the
threshold itself. -/
theorem sub_stepAt_le (h : Spaced unit (before ++ entry :: after)) (hplace : place ≤ entry.1) :
    place - unit * stepAt (before ++ entry :: after) place ≤ entry.1 - unit * lastStep before := by
  have hnonneg := mul_nonneg h.unit_nonneg (h.stepAt_nonneg place)
  rcases List.eq_nil_or_concat' before with rfl | ⟨earlier, last, rfl⟩
  · rw [lastStep_nil, mul_zero, sub_zero]
    omega
  · rw [lastStep_concat]
    rw [List.append_assoc, List.singleton_append] at h hnonneg ⊢
    by_cases hlast : last.1 < place
    · rw [h.stepAt_between hlast hplace]
      omega
    · have hpairwise := (List.pairwise_append.1 h.apart).2.1
      have hspace := ((List.pairwise_cons.1 hpairwise).1 entry List.mem_cons_self).2.1
      omega

/-- Subtracting the value keeps places at or after a limit there, unless the limit lies between what
is subtracted before and after a threshold. -/
theorem sub_stepAt_mono (h : Spaced unit table) {first second limit : ℤ} (hle : first ≤ second)
    (hclear : ∀ before entry after, table = before ++ entry :: after →
      ¬(entry.1 - unit * entry.2 < limit ∧ limit ≤ entry.1 - unit * lastStep before))
    (hfirst : limit ≤ first - unit * stepAt table first) :
    limit ≤ second - unit * stepAt table second := by
  obtain ⟨before, after, rfl, hbefore, hafter⟩ := h.exists_split second
  have hnonneg := mul_nonneg h.unit_nonneg (h.stepAt_nonneg first)
  rw [stepAt_append hbefore hafter]
  rcases List.eq_nil_or_concat' before with rfl | ⟨earlier, entry, rfl⟩
  · rw [lastStep_nil, mul_zero, sub_zero]
    omega
  · have hentry := hbefore entry (List.mem_append_right _ List.mem_cons_self)
    rw [lastStep_concat]
    by_cases hsame : entry.1 < first
    · -- No threshold lies between the two places.
      rw [stepAt_append (fun other hother => ?_)
        (fun other hother => hle.trans (hafter other hother)), lastStep_concat] at hfirst
      · omega
      · rcases List.mem_append.1 hother with hearlier | hlast
        · have hpairwise := (List.pairwise_append.1 h.of_append.apart).2.2
          exact (hpairwise other hearlier entry List.mem_cons_self).1.trans hsame
        · rwa [List.mem_singleton.1 hlast]
    · rw [List.append_assoc, List.singleton_append] at h hfirst hclear
      have hbound := h.sub_stepAt_le (not_lt.1 hsame)
      have hwindow := hclear earlier entry after rfl
      omega

/-- Subtracting the value keeps one place at least a margin before another, unless a threshold
overtakes the distance. -/
theorem sub_stepAt_add_le_iff (h : Spaced unit table)
    (hwide : table.Pairwise fun first second => first.1 + unit * second.2 ≤ second.1)
    {first second margin : ℤ} (hlow : 0 ≤ margin) (hhigh : margin ≤ 1)
    (hle : first + margin ≤ second) :
    first - unit * stepAt table first + margin ≤ second - unit * stepAt table second ↔
      ¬Overtakes unit table first second margin := by
  constructor
  · rintro hkept ⟨before, entry, after, rfl, hfirst, hsecond, hclose⟩
    -- Between the places the value grows by as much as the entry adds.
    have hbefore := mul_le_mul_of_nonneg_left (h.stepAt_mono hfirst) h.unit_nonneg
    have hafter := mul_le_mul_of_nonneg_left
      (h.le_stepAt (List.mem_append_right before List.mem_cons_self) hsecond) h.unit_nonneg
    have hat : stepAt (before ++ entry :: after) entry.1 = lastStep before := by
      have hpairwise := List.pairwise_append.1 h.apart
      refine stepAt_append (fun other hother => ?_) fun other hother => ?_
      · exact (hpairwise.2.2 other hother entry List.mem_cons_self).1
      · rcases List.mem_cons.1 hother with rfl | hlater
        · exact le_rfl
        · exact ((List.pairwise_cons.1 hpairwise.2.1).1 other hlater).1.le
    rw [hat] at hbefore
    rw [mul_sub] at hclose
    omega
  · intro hclear
    obtain ⟨before, after, rfl, hbefore, hafter⟩ := h.exists_split second
    have hnonneg := mul_nonneg h.unit_nonneg (h.stepAt_nonneg first)
    rw [stepAt_append hbefore hafter]
    rcases List.eq_nil_or_concat' before with rfl | ⟨earlier, entry, rfl⟩
    · rw [lastStep_nil, mul_zero, sub_zero]
      omega
    · have hentry := hbefore entry (List.mem_append_right _ List.mem_cons_self)
      rw [lastStep_concat]
      by_cases hsame : entry.1 < first
      · have hvalue := mul_le_mul_of_nonneg_left
          (h.le_stepAt (List.mem_append_left after (List.mem_append_right _ List.mem_cons_self))
            hsame) h.unit_nonneg
        omega
      · -- The last threshold before the second place lies between the two.
        have hroom : unit * (entry.2 - lastStep earlier) + margin ≤ second - first := by
          by_contra hclose
          exact hclear ⟨earlier, entry, after, by simp, not_lt.1 hsame, hentry, not_le.1 hclose⟩
        rw [mul_sub] at hroom
        rcases List.eq_nil_or_concat' earlier with rfl | ⟨earliest, last, rfl⟩
        · rw [lastStep_nil, mul_zero] at hroom
          omega
        · rw [lastStep_concat] at hroom
          by_cases hlast : last.1 < first
          · have hvalue := mul_le_mul_of_nonneg_left
              (h.le_stepAt (by simp : last ∈ _) hlast) h.unit_nonneg
            omega
          · have hapart : last.1 + unit * entry.2 ≤ entry.1 :=
              (List.pairwise_append.1 (List.pairwise_append.1 hwide).1).2.2 last (by simp) entry
                List.mem_cons_self
            omega

end Spaced

end StepTable
