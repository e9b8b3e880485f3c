import Barn.Agent.Metrics
import Barn.Platform.Streams

/-!
# Metric datagrams

How `localreport.cpp` writes a metric into a datagram and reads it back. Every metric that is sent
is read back, but a datagram need not come from `send_metric`: without a second word in it, `value`
is never written (`receiveReports_iff`).
-/

namespace Barn.Agent

/-- The datagram that `LocalReport::send_metric` sends. -/
def metricDatagram (key : Text) (value : Int) : Text :=
  key ++ 32 :: formatInt value

/-- `deserialize`. The local variable `value` holds `uninitialised` at first. -/
def deserialize (uninitialised : Int) (serialized : Text) : Report :=
  let iss := IStream.ofText serialized
  let (key, iss) := iss.extractWord []
  let (value, _) := iss.extractInt uninitialised
  (key, value)

/-- `buffer_size` -/
def bufferSize : ℕ := 250

/-- `receive_datagrams`: what its buffer keeps of a message is passed on. -/
def receiveDatagram (message : Text) : Text :=
  message.take bufferSize

/-- `receive_reports`: the report that its handler is given for a message. -/
def receiveReports (uninitialised : Int) (message : Text) : Report :=
  deserialize uninitialised (receiveDatagram message)

/-- Something other than white space, then white space, then again something else. -/
def HasTwoWords (datagram : Text) : Prop :=
  ∃ unit gap other, [unit, gap, other].Sublist datagram ∧
    isSpace unit = false ∧ isSpace gap = true ∧ isSpace other = false

/-- The report read from a datagram does not depend on what the local variable held. -/
def Determined (datagram : Text) : Prop :=
  ∀ first second, deserialize first datagram = deserialize second datagram

variable {key datagram : Text} {value : Int}

/-- Subsequences that begin with a unit of some kind can begin with the first one of that kind. -/
theorem exists_cons_sublist (kind : ℕ → Bool) (later list : Text) :
    (∃ first, kind first = true ∧ (first :: later).Sublist list) ↔
      ∃ first rest, list.dropWhile (fun unit => !kind unit) = first :: rest ∧
        later.Sublist rest := by
  induction list with
  | nil => simp
  | cons unit list ih =>
      cases hunit : kind unit with
      | true =>
          rw [List.dropWhile_cons_of_neg (by simp [hunit])]
          constructor
          · rintro ⟨first, -, hsub⟩
            exact ⟨unit, list, rfl, hsub.tail⟩
          · rintro ⟨_, _, heq, hsub⟩
            cases heq
            exact ⟨unit, hunit, hsub.cons_cons unit⟩
      | false =>
          rw [List.dropWhile_cons_of_pos (by simp [hunit]), ← ih]
          constructor
          · rintro ⟨first, hfirst, hsub⟩
            cases hsub with
            | cons _ hsub => exact ⟨first, hfirst, hsub⟩
            | cons_cons _ hsub => simp [hunit] at hfirst
          · rintro ⟨first, hfirst, hsub⟩
            exact ⟨first, hfirst, hsub.cons unit⟩

/-- There are two words if something stands after the white space after the first word. -/
theorem hasTwoWords_iff :
    HasTwoWords datagram ↔
      ∃ unit rest, datagram.dropWhile isSpace = unit :: rest ∧
        ∃ gap rest', rest.dropWhile (fun unit => !isSpace unit) = gap :: rest' ∧
          ∃ other ∈ rest', isSpace other = false := by
  have hfirst := fun later => exists_cons_sublist (fun unit => !isSpace unit) later datagram
  simp only [Bool.not_not, Bool.not_eq_true'] at hfirst
  constructor
  · rintro ⟨unit, gap, other, hsub, hunit, hgap, hother⟩
    obtain ⟨unit, rest, hrest, hsub⟩ := (hfirst _).1 ⟨unit, hunit, hsub⟩
    obtain ⟨gap, rest', hrest', hsub⟩ := (exists_cons_sublist isSpace _ _).1 ⟨gap, hgap, hsub⟩
    exact ⟨unit, rest, hrest, gap, rest', hrest', other, List.singleton_sublist.1 hsub, hother⟩
  · rintro ⟨unit, rest, hrest, gap, rest', hrest', other, hmem, hother⟩
    obtain ⟨gap, hgap, hsub⟩ := (exists_cons_sublist isSpace [other] rest).2
      ⟨gap, rest', hrest', List.singleton_sublist.2 hmem⟩
    obtain ⟨unit, hunit, hsub⟩ := (hfirst _).2 ⟨unit, rest, hrest, hsub⟩
    exact ⟨unit, gap, other, hsub, hunit, hgap, hother⟩

/-- The stream that `value` is read from. -/
def afterKey (datagram : Text) : IStream :=
  ((IStream.ofText datagram).extractWord []).2

/-- The key is followed by something to read if there are two words. -/
theorem sentry_afterKey : (afterKey datagram).sentry.1 = true ↔ HasTwoWords datagram := by
  rw [hasTwoWords_iff, afterKey]
  cases hskip : datagram.dropWhile isSpace with
  | nil => simp [IStream.extractWord, IStream.sentry, IStream.ofText, hskip]
  | cons unit rest =>
      rw [IStream.extractWord_ok rfl hskip]
      cases hword : rest.dropWhile fun unit => !isSpace unit with
      | nil => simp [IStream.sentry, hword]
      | cons gap rest' =>
          have hgap : isSpace gap = true := by
            have hhead := List.head_dropWhile_not (fun unit => !isSpace unit)
              (show rest.dropWhile (fun unit => !isSpace unit) ≠ [] by rw [hword]; simp)
            simpa [hword] using hhead
          simp [IStream.sentry, hgap, hword]

/-- Exactly the datagrams with two words determine the report. -/
theorem determined_iff : Determined datagram ↔ HasTwoWords datagram := by
  have hreport : ∀ value, deserialize value datagram =
      (((IStream.ofText datagram).extractWord []).1, ((afterKey datagram).extractInt value).1) :=
    fun _ => rfl
  rw [← sentry_afterKey]
  constructor
  · intro hdetermined
    by_contra hfails
    have hvalues := congrArg Prod.snd (hdetermined 0 1)
    rw [hreport, hreport, IStream.extractInt_of_fails (by simpa using hfails),
      IStream.extractInt_of_fails (by simpa using hfails)] at hvalues
    exact Int.zero_ne_one hvalues
  · intro hok first second
    rw [hreport, hreport, IStream.extractInt_of_ok hok first second]

/-- A metric that is sent is read back. -/
theorem deserialize_metricDatagram (hkey : key ≠ []) (hword : ∀ unit ∈ key, isSpace unit = false)
    (hlow : -2 ^ 31 ≤ value) (hhigh : value < 2 ^ 31) (uninitialised : Int) :
    deserialize uninitialised (metricDatagram key value) = (key, value) := by
  obtain ⟨unit, rest, rfl⟩ := List.exists_cons_of_ne_nil hkey
  have hunit : isSpace unit = false := hword unit List.mem_cons_self
  have hrest : ∀ unit' ∈ rest, (!isSpace unit') = true := by
    simpa using fun unit' hunit' => hword unit' (List.mem_cons_of_mem _ hunit')
  have hskip : (metricDatagram (unit :: rest) value).dropWhile isSpace =
      unit :: (rest ++ 32 :: formatInt value) := by
    rw [metricDatagram, List.cons_append, List.dropWhile_cons_of_neg (by simp [hunit])]
  have hextract : (IStream.ofText (metricDatagram (unit :: rest) value)).extractWord [] =
      (unit :: rest, ⟨32 :: formatInt value, true⟩) := by
    rw [IStream.extractWord_ok rfl hskip, List.takeWhile_append_of_pos hrest,
      List.dropWhile_append_of_pos hrest]
    simp [isSpace]
  rw [deserialize]
  dsimp only
  rw [hextract]
  exact Prod.ext rfl (extractInt_formatInt hlow hhigh uninitialised)

/-- Of any message: a metric that fits the buffer is read back, and the report is determined exactly
if what the buffer keeps has two words. -/
theorem receiveReports_iff (message : Text) :
    (∀ key value, message = metricDatagram key value → key ≠ [] →
      (∀ unit ∈ key, isSpace unit = false) → -2 ^ 31 ≤ value → value < 2 ^ 31 →
        message.length ≤ bufferSize →
          ∀ uninitialised, receiveReports uninitialised message = (key, value)) ∧
    ((∀ first second, receiveReports first message = receiveReports second message) ↔
      HasTwoWords (receiveDatagram message)) := by
  refine ⟨?_, determined_iff⟩
  rintro key value rfl hkey hword hlow hhigh hfits uninitialised
  rw [receiveReports, receiveDatagram, List.take_of_length_le hfits]
  exact deserialize_metricDatagram hkey hword hlow hhigh uninitialised

/-- The metric of an agent, as the monitor receives it. -/
theorem receiveReports_filesToShip :
    receiveReports 7 (metricDatagram (text "barn_files_to_ship") (-12)) =
      (text "barn_files_to_ship", -12) :=
  (receiveReports_iff (metricDatagram (text "barn_files_to_ship") (-12))).1 _ _ rfl (by decide)
    (by decide) (by decide) (by decide) (by decide) 7

/-- A datagram with a key only hands over what the variable held. -/
theorem receiveReports_keyOnly :
    receiveReports 7 (text "barn_files_to_ship") = (text "barn_files_to_ship", 7) ∧
      receiveReports 8 (text "barn_files_to_ship") = (text "barn_files_to_ship", 8) ∧
      receiveReports 7 [] = ([], 7) := by
  decide

end Barn.Agent
