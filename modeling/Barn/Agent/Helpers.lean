import Barn.Data.Difference
import Barn.Platform.Words
import Barn.Text.Basic

/-!
# Helpers of the agent

The functions of `helpers.cpp` and `files.h` that a shipping round uses.
-/

namespace Barn.Agent

/-- `join_path` -/
def joinPath (dir file : Text) : Text :=
  if 0 < dir.length ∧ dir.getLast? ≠ some 47 then dir ++ text "/" ++ file else dir ++ file

/-- The loop of `count_missing` over the rest of both vectors. -/
def countMissingLoop : List Text → List Text → Int → Int
  | [], _, missing => missing
  | _ :: small, [], missing => countMissingLoop small [] (toInt (missing + 1))
  | sm :: small, bg :: big, missing =>
      if sm < bg then countMissingLoop small (bg :: big) (toInt (missing + 1))
      else if sm = bg then countMissingLoop small big missing
      else countMissingLoop (sm :: small) big missing
termination_by small big => small.length + big.length

/-- `count_missing` -/
def countMissing (small big : List Text) : Int :=
  countMissingLoop small big 0

/-- The iterators of `count_missing`, as positions, and its counter. -/
structure MergeState where
  sm : ℕ
  bg : ℕ
  missing : Int

/-- One pass of the loop of `count_missing`, which has no value if it reads the end of a vector. -/
def mergePass (small big : List Text) (state : MergeState) : Option MergeState :=
  if state.bg = big.length then
    some { state with missing := toInt (state.missing + 1), sm := state.sm + 1 }
  else do
    let sm ← small[state.sm]?
    let bg ← big[state.bg]?
    if sm < bg then
      return { state with missing := toInt (state.missing + 1), sm := state.sm + 1 }
    else if sm = bg then
      return { state with sm := state.sm + 1, bg := state.bg + 1 }
    else
      return { state with bg := state.bg + 1 }

/-- At most this many passes of the loop, up to the end of the first vector. -/
def mergePasses (small big : List Text) : ℕ → MergeState → Option Int
  | 0, state => if state.sm = small.length then some state.missing else none
  | passes + 1, state =>
      if state.sm = small.length then some state.missing
      else (mergePass small big state).bind (mergePasses small big passes)

/-- The loop of `tail_intersection` over the rest of both vectors, from their ends. -/
def tailIntersectionLoop : List Text → List Text → List Text → List Text
  | a :: as, b :: bs, result =>
      if a = b then tailIntersectionLoop as bs (result ++ [a]) else result
  | _, _, result => result

/-- `tail_intersection` -/
def tailIntersection (A B : List Text) : List Text :=
  (tailIntersectionLoop A.reverse B.reverse []).reverse

/-- What the loop adds to its result is a common beginning of what is left. -/
theorem tailIntersectionLoop_spec (as bs result : List Text) :
    ∃ common as' bs', tailIntersectionLoop as bs result = result ++ common ∧ as = common ++ as' ∧
      bs = common ++ bs' ∧ ∀ first, ¬(as'.head? = some first ∧ bs'.head? = some first) := by
  induction as generalizing bs result with
  | nil =>
      refine ⟨[], [], bs, ?_, rfl, rfl, by simp⟩
      simp [tailIntersectionLoop]
  | cons a as ih =>
      cases bs with
      | nil => exact ⟨[], a :: as, [], by simp [tailIntersectionLoop], rfl, rfl, by simp⟩
      | cons b bs =>
          rw [tailIntersectionLoop]
          by_cases heq : a = b
          · rw [if_pos heq]
            obtain ⟨common, as', bs', hloop, rfl, rfl, hhead⟩ := ih bs (result ++ [a])
            refine ⟨a :: common, as', bs', ?_, rfl, by rw [heq]; rfl, hhead⟩
            rw [hloop, List.append_assoc]
            rfl
          · rw [if_neg heq]
            refine ⟨[], a :: as, b :: bs, by simp, rfl, rfl, fun first hfirst => heq ?_⟩
            simp only [List.head?_cons, Option.some.injEq] at hfirst
            exact hfirst.1.trans hfirst.2.symm

/-- The intersection is a common end of both vectors, before which they differ. -/
theorem tailIntersection_spec (A B : List Text) :
    ∃ as bs, A = as ++ tailIntersection A B ∧ B = bs ++ tailIntersection A B ∧
      ∀ last, ¬(as.getLast? = some last ∧ bs.getLast? = some last) := by
  obtain ⟨common, as, bs, hloop, hA, hB, hhead⟩ := tailIntersectionLoop_spec A.reverse B.reverse []
  refine ⟨as.reverse, bs.reverse, ?_, ?_, fun last hlast => hhead last ?_⟩
  · rw [tailIntersection, hloop, List.nil_append, ← List.reverse_append, ← hA, List.reverse_reverse]
  · rw [tailIntersection, hloop, List.nil_append, ← List.reverse_append, ← hB, List.reverse_reverse]
  · simpa using hlast

/-- All of a vector is its intersection with itself. -/
theorem tailIntersection_self (A : List Text) : tailIntersection A A = A := by
  obtain ⟨as, bs, hA, hB, hlast⟩ := tailIntersection_spec A A
  generalize tailIntersection A A = tail at hA hB ⊢
  have heq : as = bs := List.append_cancel_right (hA.symm.trans hB)
  obtain rfl | ⟨init, last, rfl⟩ := List.eq_nil_or_concat' as
  · exact hA.symm
  · exact absurd ⟨List.getLast?_concat, heq ▸ List.getLast?_concat⟩ (hlast last)

/-- What ends both vectors ends their intersection. -/
theorem suffix_tailIntersection {A B suffix : List Text} (hA : suffix <:+ A) (hB : suffix <:+ B) :
    suffix <:+ tailIntersection A B := by
  obtain ⟨as, bs, hA', hB', hlast⟩ := tailIntersection_spec A B
  generalize tailIntersection A B = tail at hA' hB' ⊢
  have htailA : tail <:+ A := ⟨as, hA'.symm⟩
  have htailB : tail <:+ B := ⟨bs, hB'.symm⟩
  rcases List.suffix_or_suffix_of_suffix hA htailA with hle | ⟨longer, hlonger⟩
  · exact hle
  · -- A longer one would end with an element before which the vectors differ.
    rcases List.eq_nil_or_concat' longer with rfl | ⟨init, last, rfl⟩
    · rw [← hlonger]
      exact List.suffix_rfl
    · rw [← hlonger] at hA hB
      obtain ⟨before, hbefore⟩ := hA
      obtain ⟨before', hbefore'⟩ := hB
      rw [hA', ← List.append_assoc] at hbefore
      rw [hB', ← List.append_assoc] at hbefore'
      refine absurd ⟨?_, ?_⟩ (hlast last)
      · rw [← List.append_cancel_right hbefore, ← List.append_assoc]
        exact List.getLast?_concat
      · rw [← List.append_cancel_right hbefore', ← List.append_assoc]
        exact List.getLast?_concat

/-- The last element of the part of a sorted vector before the intersection is not missing. -/
theorem notMem_of_getLast? {as bs tail : List Text} {last : Text}
    (hsorted : (as ++ tail).Pairwise (· < ·)) (hsublist : bs.Sublist as)
    (has : as.getLast? = some last) (hbs : bs.getLast? ≠ some last) : last ∉ bs ++ tail := by
  obtain ⟨hinit, _, hacross⟩ := List.pairwise_append.1 hsorted
  obtain ⟨init, rfl⟩ := List.getLast?_eq_some_iff.1 has
  intro hmem
  rcases List.mem_append.1 hmem with hleft | hright
  · obtain ⟨before, after, rfl⟩ := List.append_of_mem hleft
    have hpairwise := hinit.sublist hsublist
    rcases List.eq_nil_or_concat' after with rfl | ⟨middle, greatest, rfl⟩
    · exact hbs List.getLast?_concat
    · have hgreater : last < greatest :=
        (List.pairwise_cons.1 (List.pairwise_append.1 hpairwise).2.1).1 greatest (by simp)
      rcases List.mem_append.1 (hsublist.subset (by simp : greatest ∈ _)) with hearlier | hsame
      · exact lt_asymm hgreater
          ((List.pairwise_append.1 hinit).2.2 greatest hearlier last List.mem_cons_self)
      · rw [List.mem_singleton.1 hsame] at hgreater
        exact lt_irrefl _ hgreater
  · exact lt_irrefl _ (hacross last (by simp) last hright)

/-- Of a sorted vector and what is missing of it, the intersection is what is newer than everything
that is not missing. -/
theorem tailIntersection_eq_filter {A B : List Text} (hsorted : A.Pairwise (· < ·))
    (hsublist : B.Sublist A) :
    tailIntersection A B = A.filter fun file => ∀ placed ∈ A, placed ∉ B → placed < file := by
  obtain ⟨as, bs, hA, hB, hlast⟩ := tailIntersection_spec A B
  generalize tailIntersection A B = tail at hA hB ⊢
  subst hA hB
  have hbefore : bs.Sublist as := (List.append_sublist_append_right tail).1 hsublist
  obtain ⟨hinit, _, hacross⟩ := List.pairwise_append.1 hsorted
  rw [List.filter_append]
  have hdropped : as.filter (fun file => ∀ placed ∈ as ++ tail, placed ∉ bs ++ tail →
      placed < file) = [] := by
    rcases List.eq_nil_or_concat' as with rfl | ⟨init, last, rfl⟩
    · rfl
    · have hplaced : last ∉ bs ++ tail := notMem_of_getLast? hsorted hbefore List.getLast?_concat
        fun hbs => hlast last ⟨List.getLast?_concat, hbs⟩
      rw [List.filter_eq_nil_iff]
      intro file hfile hnewer
      have hless := of_decide_eq_true hnewer last (by simp) hplaced
      rcases List.mem_append.1 hfile with hearlier | hsame
      · exact lt_asymm hless
          ((List.pairwise_append.1 hinit).2.2 file hearlier last List.mem_cons_self)
      · rw [List.mem_singleton.1 hsame] at hless
        exact lt_irrefl _ hless
  have hkept : tail.filter (fun file => ∀ placed ∈ as ++ tail, placed ∉ bs ++ tail →
      placed < file) = tail := by
    rw [List.filter_eq_self]
    intro file hfile
    refine decide_eq_true fun placed hplaced hnot => ?_
    rcases List.mem_append.1 hplaced with hearlier | hmissing
    · exact hacross placed hearlier file hfile
    · exact absurd (List.mem_append_right _ hmissing) hnot
  rw [hdropped, hkept, List.nil_append]

/-- `tail_intersection` is the longest common end of two vectors, and hence the files that are newer
than anything on the server. -/
theorem tailIntersection_newest (A B : List Text) :
    (tailIntersection A B <:+ A ∧ tailIntersection A B <:+ B ∧
      ∀ suffix, suffix <:+ A → suffix <:+ B → suffix.length ≤ (tailIntersection A B).length) ∧
    (A.Pairwise (· < ·) → B.Sublist A →
      tailIntersection A B = A.filter fun file => ∀ placed ∈ A, placed ∉ B → placed < file) := by
  obtain ⟨as, bs, hA, hB, _⟩ := tailIntersection_spec A B
  refine ⟨⟨⟨as, hA.symm⟩, ⟨bs, hB.symm⟩, fun suffix hsuffixA hsuffixB => ?_⟩,
    tailIntersection_eq_filter⟩
  exact (suffix_tailIntersection hsuffixA hsuffixB).length_le

/-- Two old files and a new one are missing. -/
theorem tailIntersection_newest_gap :
    tailIntersection [text "1", text "2", text "3", text "4", text "5"]
        [text "1", text "2", text "5"] =
      [text "1", text "2", text "3", text "4", text "5"].filter fun file =>
        ∀ placed ∈ [text "1", text "2", text "3", text "4", text "5"],
          placed ∉ [text "1", text "2", text "5"] → placed < file :=
  (tailIntersection_newest _ _).2 (by decide) (by decide)

/-- The loop counts what the rest of the first vector has in excess. -/
theorem countMissingLoop_eq {small big : List Text} (hsmall : small.Pairwise (· ≤ ·))
    (hbig : big.Pairwise (· ≤ ·)) {missing : Int} (hlow : 0 ≤ missing)
    (hhigh : missing + (small.diff big).length < 2 ^ 31) :
    countMissingLoop small big missing = missing + (small.diff big).length := by
  induction small, big, missing using countMissingLoop.induct with
  | case1 big missing => simp [countMissingLoop]
  | case2 sm small missing ih =>
      have hdiff : (sm :: small).diff [] = sm :: small.diff [] := by simp
      rw [hdiff, List.length_cons, Nat.cast_add, Nat.cast_one] at hhigh ⊢
      have hnext : toInt (missing + 1) = missing + 1 := toInt_of_range (by omega) (by omega)
      rw [hnext] at ih
      rw [countMissingLoop, hnext, ih (List.pairwise_cons.1 hsmall).2 hbig (by omega) (by omega)]
      omega
  | case3 sm small bg big missing hless ih =>
      have hdiff := Difference.diff_cons_cons hsmall hbig
      rw [if_pos hless] at hdiff
      rw [hdiff, List.length_cons, Nat.cast_add, Nat.cast_one] at hhigh ⊢
      have hnext : toInt (missing + 1) = missing + 1 := toInt_of_range (by omega) (by omega)
      rw [hnext] at ih
      rw [countMissingLoop, if_pos hless, hnext,
        ih (List.pairwise_cons.1 hsmall).2 hbig (by omega) (by omega)]
      omega
  | case4 small sm big missing hless ih =>
      have hdiff := Difference.diff_cons_cons hsmall hbig
      rw [if_neg hless, if_pos rfl] at hdiff
      rw [hdiff] at hhigh ⊢
      rw [countMissingLoop, if_neg hless, if_pos rfl,
        ih (List.pairwise_cons.1 hsmall).2 (List.pairwise_cons.1 hbig).2 hlow hhigh]
  | case5 sm small bg big missing hless hne ih =>
      have hdiff := Difference.diff_cons_cons hsmall hbig
      rw [if_neg hless, if_neg hne] at hdiff
      rw [hdiff] at hhigh ⊢
      rw [countMissingLoop, if_neg hless, if_neg hne,
        ih hsmall (List.pairwise_cons.1 hbig).2 hlow hhigh]

/-- The passes do what the loop does with what is left of the vectors. -/
theorem mergePasses_eq {small big : List Text} {passes : ℕ} {state : MergeState}
    (hsm : state.sm ≤ small.length) (hbg : state.bg ≤ big.length)
    (henough : small.length - state.sm + (big.length - state.bg) ≤ passes) :
    mergePasses small big passes state =
      some (countMissingLoop (small.drop state.sm) (big.drop state.bg) state.missing) := by
  induction passes generalizing state with
  | zero =>
      rw [mergePasses, if_pos (by omega), List.drop_of_length_le (by omega), countMissingLoop]
  | succ passes ih =>
      rw [mergePasses]
      by_cases hend : state.sm = small.length
      · rw [if_pos hend, List.drop_of_length_le (by omega), countMissingLoop]
      · have hread : state.sm < small.length := by omega
        rw [if_neg hend, mergePass, List.drop_eq_getElem_cons hread]
        by_cases hexhausted : state.bg = big.length
        · have hnone : big.drop state.bg = [] := List.drop_of_length_le (by omega)
          rw [if_pos hexhausted, Option.bind_some, hnone, countMissingLoop, ← hnone]
          refine ih hread hbg ?_
          dsimp only
          omega
        · -- Only here does a pass read the second vector.
          have hread' : state.bg < big.length := by omega
          rw [if_neg hexhausted, List.drop_eq_getElem_cons hread', List.getElem?_eq_getElem hread,
            List.getElem?_eq_getElem hread']
          simp only [Option.bind_eq_bind, Option.bind_some]
          by_cases hless : small[state.sm] < big[state.bg]
          · rw [if_pos hless, countMissingLoop, if_pos hless, ← List.drop_eq_getElem_cons hread']
            exact ih (by dsimp only; omega) hbg (by dsimp only; omega)
          · by_cases heq : small[state.sm] = big[state.bg]
            · rw [if_neg hless, if_pos heq, countMissingLoop, if_neg hless, if_pos heq]
              exact ih (by dsimp only; omega) (by dsimp only; omega) (by dsimp only; omega)
            · rw [if_neg hless, if_neg heq, countMissingLoop, if_neg hless, if_neg heq,
                ← List.drop_eq_getElem_cons hread]
              exact ih hsm (by dsimp only; omega) (by dsimp only; omega)

/-- `count_missing` ends, reads no vector at its end, and counts, for sorted vectors, how often the
strings of the first one occur there in excess, unless that is `2 ^ 31` times. -/
theorem countMissing_excess (small big : List Text) :
    mergePasses small big (small.length + big.length) ⟨0, 0, 0⟩ = some (countMissing small big) ∧
    (small.Pairwise (· ≤ ·) → big.Pairwise (· ≤ ·) →
      ∑ name ∈ small.toFinset, (small.count name - big.count name) < 2 ^ 31 →
      countMissing small big =
          (∑ name ∈ small.toFinset, (small.count name - big.count name) : ℕ) ∧
        (small.Nodup → big.Nodup →
          countMissing small big = (small.filter fun name => name ∉ big).length)) := by
  refine ⟨mergePasses_eq (Nat.zero_le _) (Nat.zero_le _) (by simp), ?_⟩
  intro hsmall hbig hfits
  rw [← Difference.length_diff] at hfits ⊢
  have hcount : countMissing small big = (small.diff big).length := by
    rw [countMissing, countMissingLoop_eq hsmall hbig le_rfl (by omega), zero_add]
  refine ⟨hcount, fun hnodup _ => ?_⟩
  rw [hcount, hnodup.sdiff_eq_filter]

/-- The canonical case: logs are produced faster than they are shipped. -/
theorem countMissing_excess_rotated :
    countMissing [text "@40001", text "@40002", text "@40003", text "@40004"]
      [text "@40003", text "@40004", text "@40005"] =
        ([text "@40001", text "@40002", text "@40003", text "@40004"].filter fun name =>
          name ∉ [text "@40003", text "@40004", text "@40005"]).length :=
  ((countMissing_excess _ _).2 (by decide) (by decide) (by decide)).2 (by decide) (by decide)

/-- The counter stays an `int`. -/
theorem countMissingLoop_lt (small big : List Text) {missing : Int} (h : missing < 2 ^ 31) :
    countMissingLoop small big missing < 2 ^ 31 := by
  induction small, big, missing using countMissingLoop.induct with
  | case1 big missing => rwa [countMissingLoop]
  | case2 sm small missing ih =>
      rw [countMissingLoop]
      exact ih (toInt_lt _)
  | case3 sm small bg big missing hless ih =>
      rw [countMissingLoop, if_pos hless]
      exact ih (toInt_lt _)
  | case4 small sm big missing hless ih =>
      rw [countMissingLoop, if_neg hless, if_pos rfl]
      exact ih h
  | case5 sm small bg big missing hless hne ih =>
      rw [countMissingLoop, if_neg hless, if_neg hne]
      exact ih h

/-- A string that is missing `2 ^ 31` times is not counted that often. -/
theorem countMissing_overflow :
    ¬∀ small big : List Text, small.Pairwise (· ≤ ·) → big.Pairwise (· ≤ ·) →
      countMissing small big =
        (∑ name ∈ small.toFinset, (small.count name - big.count name) : ℕ) := by
  intro h
  obtain ⟨files, hlength, hsorted⟩ : ∃ files : List Text, files.length = 2 ^ 31 ∧
      files.Pairwise (· ≤ ·) :=
    ⟨List.replicate (2 ^ 31) (text "@40001"), List.length_replicate,
      List.pairwise_replicate.2 (.inr le_rfl)⟩
  have hcount := h files [] hsorted .nil
  have hlt := countMissingLoop_lt files [] (by decide : (0 : Int) < 2 ^ 31)
  rw [← Difference.length_diff, List.diff_nil, hlength, countMissing] at hcount
  omega

end Barn.Agent
