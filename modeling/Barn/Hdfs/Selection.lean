import Barn.Hdfs.Execution
import Barn.Hdfs.Main

/-!
# Which files are outstanding

What `outstandingFiles` selects, as a function of the time at which it reads the clock.
-/

namespace Barn.Hdfs

open Interaction

/-- The timestamp of the file can be decoded. -/
def Dated (jvm : Jvm) (file : File) : Prop :=
  ∃ time, fileTime jvm file = .ok time

/-- The timestamp of the file is before the limit. -/
def datedBefore (jvm : Jvm) (limit : DateTime) (file : File) : Bool :=
  match fileTime jvm file with
  | .ok time => time.isBefore limit
  | .error _ => false

/-- What `outstandingFiles` makes of the files that are not dropped. -/
def outstandingOf : Throws (List File) → Attempt (List File)
  | .error throwable => .error (.thrown throwable)
  | .ok [] => .error (.left (.nothingToSync (text "No local files left to sync.")))
  | .ok candidates => .ok candidates

/-- What is selected is what is not dropped, if that is anything. -/
theorem outstandingOf_eq_ok {kept : Throws (List File)} {candidates : List File}
    (h : outstandingOf kept = .ok candidates) : kept = .ok candidates ∧ candidates ≠ [] := by
  cases kept with
  | error throwable => simp [outstandingOf] at h
  | ok files =>
      cases files with
      | nil => simp [outstandingOf] at h
      | cons file files =>
          obtain rfl := Except.ok.inj h
          exact ⟨rfl, List.cons_ne_nil _ _⟩

/-- What `outstandingFiles` selects at a time. -/
def outstandingAt (jvm : Jvm) (localFiles : List File) (lastTaistamp : Option Text)
    (now : DateTime) : Attempt (List File) :=
  outstandingOf (dropWhileThrows (isSettled jvm lastTaistamp (oldestMidnight now)) localFiles)

section Drop

variable {α : Type} {predicate : α → Throws Bool} {first rest : List α}

/-- What fulfils the predicate is dropped. -/
theorem dropWhileThrows_append (h : ∀ value ∈ first, predicate value = .ok true) :
    dropWhileThrows predicate (first ++ rest) = dropWhileThrows predicate rest := by
  induction first with
  | nil => rfl
  | cons value first ih =>
      rw [List.cons_append, dropWhileThrows, h value List.mem_cons_self]
      exact ih fun other hother => h other (.tail _ hother)

/-- What comes first and does not fulfil the predicate is kept. -/
theorem dropWhileThrows_cons_false {value : α} (h : predicate value = .ok false) :
    dropWhileThrows predicate (value :: rest) = .ok (value :: rest) := by
  rw [dropWhileThrows, h]
  rfl

/-- Nothing after the first element to keep is looked at. -/
theorem dropWhileThrows_stops (hfirst : ∀ value ∈ first, ∃ holds, predicate value = .ok holds)
    (hstop : ∃ value ∈ first, predicate value ≠ .ok true) (rest : List α) :
    ∃ dropped kept, first = dropped ++ kept ∧ kept ≠ [] ∧
      dropWhileThrows predicate (first ++ rest) = .ok (kept ++ rest) := by
  induction first with
  | nil => simp at hstop
  | cons value first ih =>
      obtain ⟨holds, hvalue⟩ := hfirst value List.mem_cons_self
      cases holds with
      | false => exact ⟨[], value :: first, rfl, List.cons_ne_nil _ _,
          dropWhileThrows_cons_false hvalue⟩
      | true =>
          obtain ⟨other, hother, hnot⟩ := hstop
          have hlater : other ∈ first := by
            rcases List.mem_cons.1 hother with rfl | hmem
            · exact absurd hvalue hnot
            · exact hmem
          obtain ⟨dropped, kept, rfl, hkept, hdrop⟩ :=
            ih (fun other hmem => hfirst other (.tail _ hmem)) ⟨other, hlater, hnot⟩
          refine ⟨value :: dropped, kept, rfl, hkept, ?_⟩
          rw [List.cons_append, dropWhileThrows, hvalue]
          exact hdrop

/-- What is left begins with the first element to keep. -/
theorem dropWhileThrows_eq_cons_iff {values kept : List α} :
    (dropWhileThrows predicate values = .ok kept ∧ kept ≠ []) ↔
      ∃ before value after, values = before ++ value :: after ∧
        (∀ earlier ∈ before, predicate earlier = .ok true) ∧ predicate value = .ok false ∧
        kept = value :: after := by
  constructor
  · intro h
    obtain ⟨h, hne⟩ := h
    obtain ⟨⟨before, rfl, hbefore⟩, hfirst⟩ := dropWhileThrows_eq_ok h
    obtain ⟨value, after, rfl⟩ := List.exists_cons_of_ne_nil hne
    exact ⟨before, value, after, rfl, hbefore, hfirst value rfl, rfl⟩
  · rintro ⟨before, value, after, rfl, hbefore, hvalue, rfl⟩
    rw [dropWhileThrows_append hbefore, dropWhileThrows_cons_false hvalue]
    exact ⟨rfl, List.cons_ne_nil _ _⟩

/-- Dropping fails at the first element for which the predicate does. -/
theorem dropWhileThrows_error_iff {values : List α} :
    (¬∃ kept, dropWhileThrows predicate values = .ok kept) ↔
      ∃ before value after, values = before ++ value :: after ∧
        (∀ earlier ∈ before, predicate earlier = .ok true) ∧
        ∀ holds, predicate value ≠ .ok holds := by
  constructor
  · intro h
    induction values with
    | nil => exact absurd ⟨[], rfl⟩ h
    | cons value values ih =>
        cases hvalue : predicate value with
        | error throwable => exact ⟨[], value, values, rfl, by simp, by simp [hvalue]⟩
        | ok holds =>
            cases holds with
            | false => exact absurd ⟨_, dropWhileThrows_cons_false hvalue⟩ h
            | true =>
                rw [dropWhileThrows, hvalue] at h
                obtain ⟨before, other, after, rfl, hbefore, hother⟩ := ih h
                refine ⟨value :: before, other, after, rfl, fun earlier hearlier => ?_, hother⟩
                rcases List.mem_cons.1 hearlier with rfl | htail
                · exact hvalue
                · exact hbefore earlier htail
  · rintro ⟨before, value, after, rfl, hbefore, hvalue⟩ ⟨kept, hkept⟩
    rw [dropWhileThrows_append hbefore, dropWhileThrows, bind_eq_ok_iff] at hkept
    obtain ⟨holds, hholds, _⟩ := hkept
    exact hvalue holds hholds

/-- What is dropped is all that fulfils a predicate, if what comes before such an element fulfils
it, too. -/
theorem dropWhileThrows_eq_filter {values : List α} {holds : α → Bool}
    (hvalues : ∀ value ∈ values, predicate value = .ok (holds value))
    (hclosed : values.Pairwise fun earlier later => holds later → holds earlier) :
    dropWhileThrows predicate values = .ok (values.filter fun value => !holds value) := by
  induction values with
  | nil => rfl
  | cons value values ih =>
      rw [List.pairwise_cons] at hclosed
      have hvalue := hvalues value List.mem_cons_self
      have hrest := ih (fun other hother => hvalues other (.tail _ hother)) hclosed.2
      cases hholds : holds value with
      | true =>
          rw [hholds] at hvalue
          rw [dropWhileThrows, hvalue, List.filter_cons_of_neg (by simp [hholds]), ← hrest]
          rfl
      | false =>
          rw [hholds] at hvalue
          rw [dropWhileThrows_cons_false hvalue, List.filter_eq_self.2]
          intro other hother
          rcases List.mem_cons.1 hother with rfl | hlater
          · simp [hholds]
          · have hnot : ¬holds other := fun hother => by
              simp [hholds] at hclosed
              exact absurd (hclosed.1 other hlater) (by simp [hother])
            simpa using hnot

end Drop

section Dates

variable {jvm : Jvm} {limit : DateTime} {file : File}

/-- A file that is dated before the limit can be decoded. -/
theorem datedBefore_iff :
    datedBefore jvm limit file = true ↔
      ∃ time, fileTime jvm file = .ok time ∧ time.isBefore limit = true := by
  unfold datedBefore
  cases htime : fileTime jvm file <;> simp

/-- Without a last taistamp the files dated before the midnight are settled. -/
theorem isSettled_none_iff :
    isSettled jvm none limit file = .ok true ↔ datedBefore jvm limit file := by
  simp only [isSettled, Option.any_none, Bool.false_eq_true, if_false, bind_eq_ok_iff,
    datedBefore_iff]
  constructor
  · intro h
    obtain ⟨time, htime, hbefore⟩ := h
    exact ⟨time, htime, Except.ok.inj hbefore⟩
  · intro h
    obtain ⟨time, htime, hbefore⟩ := h
    exact ⟨time, htime, congrArg _ hbefore⟩

/-- Whether a file that can be decoded is settled is known. -/
theorem isSettled_none_of_dated (h : Dated jvm file) :
    ∃ holds, isSettled jvm none limit file = .ok holds := by
  obtain ⟨time, htime⟩ := h
  refine ⟨time.isBefore limit, ?_⟩
  simp only [isSettled, Option.any_none, Bool.false_eq_true, if_false]
  rw [fileTime] at htime
  rw [htime]
  rfl

end Dates

/-- `outstandingFiles` reads the clock and selects. -/
theorem outstandingFiles_eq (jvm : Jvm) (files : List File) (lastTaistamp : Option Text) :
    outstandingFiles jvm files lastTaistamp = (Action.now jvm .outstandingFiles >>= fun now =>
      Action.attempt (outstandingAt jvm files lastTaistamp now)) := by
  refine congrArg (Action.now jvm .outstandingFiles >>= ·) (funext fun now => ?_)
  unfold outstandingAt
  cases dropWhileThrows (isSettled jvm lastTaistamp (oldestMidnight now)) files with
  | error throwable => rfl
  | ok candidates => cases candidates <;> rfl

/-- So it takes one outcome, the time that it reads. -/
theorem execute_outstandingFiles_iff {jvm : Jvm} {files : List File} {lastTaistamp : Option Text}
    {outcomes : List Outcome} {world final : World} {result : Attempt (List File)} :
    execute machine outcomes (outstandingFiles jvm files lastTaistamp) world =
        some (result, final) ↔
      ∃ millis, outcomes = [.reads millis] ∧ world.clock ≤ millis ∧
        final = { world with clock := millis } ∧
        result = outstandingAt jvm files lastTaistamp ⟨millis, jvm.zone⟩ := by
  rw [outstandingFiles_eq, execute_andThen_iff]
  constructor
  · intro h
    rcases h with ⟨first, second, now, middle, rfl, hnow, hrest⟩ | ⟨failure, hnow, _⟩
    · obtain ⟨millis, rfl, hclock, hvalue, rfl⟩ := execute_now_iff.1 hnow
      obtain rfl := Except.ok.inj hvalue
      obtain ⟨rfl, rfl, rfl⟩ := execute_attempt_iff.1 hrest
      exact ⟨millis, rfl, hclock, rfl, rfl⟩
    · obtain ⟨_, _, _, hvalue, _⟩ := execute_now_iff.1 hnow
      simp at hvalue
  · intro h
    obtain ⟨millis, houtcomes, hclock, hfinal, hresult⟩ := h
    exact .inl ⟨[.reads millis], [], ⟨millis, jvm.zone⟩, { world with clock := millis }, houtcomes,
      execute_now_iff.2 ⟨millis, rfl, hclock, rfl, rfl⟩,
      execute_attempt_iff.2 ⟨rfl, hresult, hfinal⟩⟩

/-- Something is selected if a file is not settled. -/
theorem outstandingAt_eq_ok_iff {jvm : Jvm} {files candidates : List File} {last : Option Text}
    {now : DateTime} :
    outstandingAt jvm files last now = .ok candidates ↔
      ∃ before file after, files = before ++ file :: after ∧
        (∀ earlier ∈ before, isSettled jvm last (oldestMidnight now) earlier = .ok true) ∧
        isSettled jvm last (oldestMidnight now) file = .ok false ∧
        candidates = file :: after := by
  rw [← dropWhileThrows_eq_cons_iff, outstandingAt]
  refine ⟨outstandingOf_eq_ok, fun ⟨hkept, hne⟩ => ?_⟩
  rw [hkept]
  cases candidates with
  | nil => exact absurd rfl hne
  | cons file files => rfl

/-- Without a last taistamp a file is dropped exactly if it and all files before it are dated before
the midnight. -/
theorem outstandingAt_drops {jvm : Jvm} {files before after : List File} {file : File}
    {now : DateTime} (hnodup : files.Nodup) (hsplit : files = before ++ file :: after)
    (hdated : ∀ earlier ∈ before ++ [file], Dated jvm earlier) :
    (∀ candidates, outstandingAt jvm files none now = .ok candidates → file ∉ candidates) ↔
      ∀ earlier ∈ before ++ [file], datedBefore jvm (oldestMidnight now) earlier := by
  have hfiles : files = (before ++ [file]) ++ after := by simp [hsplit]
  constructor
  · intro h
    by_contra hyoung
    push Not at hyoung
    obtain ⟨young, hyoung, hnot⟩ := hyoung
    have hknown : ∀ earlier ∈ before ++ [file],
        ∃ holds, isSettled jvm none (oldestMidnight now) earlier = .ok holds :=
      fun earlier hearlier => isSettled_none_of_dated (hdated earlier hearlier)
    obtain ⟨dropped, kept, hkept, hne, hdrop⟩ := dropWhileThrows_stops hknown
      ⟨young, hyoung, fun hsettled => hnot (isSettled_none_iff.1 hsettled)⟩ after
    have hlast : file ∈ kept := by
      rcases List.eq_nil_or_concat' kept with rfl | ⟨first, last, rfl⟩
      · exact absurd rfl hne
      · rw [← List.append_assoc] at hkept
        obtain ⟨_, hsame⟩ := List.append_inj' hkept rfl
        obtain ⟨rfl, _⟩ := List.cons.inj hsame
        exact List.mem_append_right _ List.mem_cons_self
    refine h (kept ++ after) ?_ (List.mem_append_left _ hlast)
    rw [outstandingAt, hfiles, hdrop]
    cases kept with
    | nil => exact absurd rfl hne
    | cons first kept => rfl
  · intro h candidates hcandidates hmem
    have hdrop : dropWhileThrows (isSettled jvm none (oldestMidnight now)) files =
        dropWhileThrows (isSettled jvm none (oldestMidnight now)) after := by
      rw [hfiles]
      exact dropWhileThrows_append fun earlier hearlier => isSettled_none_iff.2 (h earlier hearlier)
    rw [outstandingAt, hdrop] at hcandidates
    have hselected := outstandingOf_eq_ok hcandidates
    have hafter := (dropWhileThrows_suffix hselected.1).subset hmem
    rw [hsplit, List.nodup_append] at hnodup
    exact (List.nodup_cons.1 hnodup.2.1).1 hafter

end Barn.Hdfs
