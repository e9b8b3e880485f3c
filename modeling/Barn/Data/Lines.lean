import Mathlib.Data.List.Basic
import Mathlib.Tactic.SplitIfs

/-!
# Lines

The lines of a stream of units, each ended by a separator, the last one possibly by the end of the
stream. Two streams joined have the lines of both unless a line crosses the boundary: then two of
them become one (`nonempty_append`, `length_nonempty_append`).
-/

namespace Lines

variable {α : Type*} [DecidableEq α] {sep unit next : α} {stream rest : List α}

/-- The lines of a stream. -/
def lines (sep : α) : List α → List (List α)
  | [] => []
  | unit :: rest =>
      if unit = sep then [] :: lines sep rest
      else
        match lines sep rest with
        | [] => [[unit]]
        | line :: later => (unit :: line) :: later

/-- The lines that are not empty. -/
def nonempty (sep : α) (stream : List α) : List (List α) :=
  (lines sep stream).filter fun line => !line.isEmpty

/-- No line crosses the boundary between two streams. -/
def Parted (sep : α) (first second : List α) : Prop :=
  ∀ unit ∈ first.getLast?, ∀ next ∈ second.head?, unit = sep ∨ next = sep

/-- Lines written out, each with the separator after it. -/
def terminated (sep : α) (lines : List (List α)) : List α :=
  lines.flatMap fun line => line ++ [sep]

/-- Lines written out, each with the separator before it. -/
def preceded (sep : α) (lines : List (List α)) : List α :=
  lines.flatMap fun line => sep :: line

@[simp] theorem lines_nil : lines sep ([] : List α) = [] :=
  rfl

@[simp] theorem nonempty_nil : nonempty sep ([] : List α) = [] :=
  rfl

@[simp] theorem lines_cons_self : lines sep (sep :: rest) = [] :: lines sep rest := by
  simp [lines]

/-- Only the empty stream has no line. -/
theorem eq_nil_of_lines (h : lines sep stream = []) : stream = [] := by
  cases stream with
  | nil => rfl
  | cons unit rest =>
      rw [lines] at h
      split_ifs at h
      split at h <;> exact absurd h (List.cons_ne_nil _ _)

/-- A unit before the first line becomes its first one. -/
theorem lines_cons (hunit : unit ≠ sep) {line : List α} {later : List (List α)}
    (h : lines sep rest = line :: later) : lines sep (unit :: rest) = (unit :: line) :: later := by
  rw [lines, if_neg hunit, h]

/-- A separator ends the line before it. -/
theorem lines_append_cons {line : List α} (hline : sep ∉ line) (rest : List α) :
    lines sep (line ++ sep :: rest) = line :: lines sep rest := by
  induction line with
  | nil => exact lines_cons_self
  | cons unit line ih =>
      rw [List.mem_cons, not_or] at hline
      exact lines_cons (Ne.symm hline.1) (ih hline.2)

/-- What stands before no separator is one line. -/
theorem lines_of_notMem {line : List α} (hline : sep ∉ line) (hne : line ≠ []) :
    lines sep line = [line] := by
  induction line with
  | nil => exact absurd rfl hne
  | cons unit line ih =>
      rw [List.mem_cons, not_or] at hline
      cases line with
      | nil => rw [lines, if_neg (Ne.symm hline.1), lines_nil]
      | cons next line => exact lines_cons (Ne.symm hline.1) (ih hline.2 (List.cons_ne_nil _ _))

/-- What stands before the first line becomes part of it. -/
theorem lines_append {start : List α} (hstart : sep ∉ start) {line : List α}
    {later : List (List α)} (h : lines sep rest = line :: later) :
    lines sep (start ++ rest) = (start ++ line) :: later := by
  induction start with
  | nil => exact h
  | cons unit start ih =>
      rw [List.mem_cons, not_or] at hstart
      exact lines_cons (Ne.symm hstart.1) (ih hstart.2)

/-- Encoding every unit encodes every line, if the separator is encoded as the separator and
occurs in no other encoding. -/
theorem lines_flatMap {β : Type*} [DecidableEq β] {encode : α → List β} {mark : β}
    (hsep : encode sep = [mark]) (hother : ∀ unit, unit ≠ sep → mark ∉ encode unit)
    (hne : ∀ unit, encode unit ≠ []) (stream : List α) :
    lines mark (stream.flatMap encode) =
      (lines sep stream).map fun line => line.flatMap encode := by
  induction stream with
  | nil => rfl
  | cons unit rest ih =>
      rw [List.flatMap_cons]
      by_cases hunit : unit = sep
      · subst hunit
        rw [hsep, List.singleton_append, lines_cons_self, lines_cons_self, ih, List.map_cons,
          List.flatMap_nil]
      · cases hrest : lines sep rest with
        | nil =>
            obtain rfl := eq_nil_of_lines hrest
            rw [List.flatMap_nil, List.append_nil, lines_of_notMem (hother unit hunit) (hne unit)]
            simp [lines, hunit]
        | cons line later =>
            rw [hrest, List.map_cons] at ih
            rw [lines_append (hother unit hunit) ih, lines_cons hunit hrest, List.map_cons,
              List.flatMap_cons]

/-- Every unit but the separators is in one of the lines. -/
theorem exists_mem_lines (hunit : unit ≠ sep) (h : unit ∈ stream) :
    ∃ line ∈ lines sep stream, unit ∈ line := by
  induction stream with
  | nil => simp at h
  | cons first rest ih =>
      by_cases hfirst : first = sep
      · subst hfirst
        obtain ⟨line, hline, hmem⟩ := ih ((List.mem_cons.1 h).resolve_left hunit)
        exact ⟨line, by simp [hline], hmem⟩
      · cases hrest : lines sep rest with
        | nil =>
            obtain rfl := eq_nil_of_lines hrest
            exact ⟨[first], by simp [lines, hfirst], h⟩
        | cons line later =>
            rw [lines_cons hfirst hrest]
            obtain rfl | hlater := List.mem_cons.1 h
            · exact ⟨_, List.mem_cons_self, List.mem_cons_self⟩
            · obtain ⟨found, hfound, hmem⟩ := ih hlater
              rw [hrest] at hfound
              obtain rfl | hfound := List.mem_cons.1 hfound
              · exact ⟨_, List.mem_cons_self, List.mem_cons_of_mem _ hmem⟩
              · exact ⟨found, List.mem_cons_of_mem _ hfound, hmem⟩

/-- Splitting at the separators gives the lines, and an empty piece after a last separator. -/
theorem splitOn_eq (sep : α) (stream : List α) :
    stream.splitOn sep = lines sep stream ∨ stream.splitOn sep = lines sep stream ++ [[]] := by
  induction stream with
  | nil => exact .inr rfl
  | cons unit rest ih =>
      rw [List.splitOn_cons_eq_if_modifyHead]
      by_cases hunit : unit = sep
      · subst hunit
        simpa using ih
      · rw [if_neg (by simpa using hunit)]
        cases hlines : lines sep rest with
        | nil =>
            obtain hsplit | hsplit := ih
            · exact absurd (hsplit.trans hlines) (List.splitOn_ne_nil sep rest)
            · left
              rw [hsplit, hlines, lines, if_neg hunit, hlines]
              rfl
        | cons line later =>
            rw [lines_cons hunit hlines]
            rw [hlines] at ih
            obtain hsplit | hsplit := ih
            · exact .inl (by rw [hsplit, List.modifyHead_cons])
            · exact .inr (by rw [hsplit, List.cons_append, List.modifyHead_cons, List.cons_append])

/-- The non-empty pieces between separators are the non-empty lines. -/
theorem filter_splitOn (sep : α) (stream : List α) :
    (stream.splitOn sep).filter (fun piece => !piece.isEmpty) = nonempty sep stream := by
  obtain h | h := splitOn_eq sep stream
  · rw [h, nonempty]
  · rw [h, List.filter_append, nonempty]
    exact List.append_nil _

/-- A line contains no separator. -/
theorem sep_notMem_of_mem_lines {line : List α} (h : line ∈ lines sep stream) : sep ∉ line := by
  induction stream generalizing line with
  | nil => simp at h
  | cons unit rest ih =>
      by_cases hunit : unit = sep
      · subst hunit
        rw [lines_cons_self, List.mem_cons] at h
        obtain rfl | hlater := h
        · exact List.not_mem_nil
        · exact ih hlater
      · cases hlines : lines sep rest with
        | nil =>
            rw [lines, if_neg hunit, hlines, List.mem_singleton] at h
            simpa [h] using Ne.symm hunit
        | cons first later =>
            rw [lines_cons hunit hlines, List.mem_cons] at h
            rw [hlines] at ih
            obtain rfl | hlater := h
            · simpa [Ne.symm hunit] using ih List.mem_cons_self
            · exact ih (List.mem_cons_of_mem _ hlater)

omit [DecidableEq α] in
@[simp] theorem terminated_append (sep : α) (first second : List (List α)) :
    terminated sep (first ++ second) = terminated sep first ++ terminated sep second :=
  List.flatMap_append

/-- Lines written out have one separator each. -/
theorem count_terminated {lines : List (List α)} (h : ∀ line ∈ lines, sep ∉ line) :
    (terminated sep lines).count sep = lines.length := by
  induction lines with
  | nil => rfl
  | cons line lines ih =>
      rw [List.forall_mem_cons] at h
      rw [terminated, List.flatMap_cons, List.count_append, List.count_append,
        List.count_eq_zero.2 h.1, List.count_singleton_self, List.length_cons, ← ih h.2, terminated]
      omega

/-- The non-empty lines contain no separator either. -/
theorem sep_notMem_of_mem_nonempty {line : List α} (h : line ∈ nonempty sep stream) : sep ∉ line :=
  sep_notMem_of_mem_lines (List.mem_of_mem_filter h)

@[simp] theorem nonempty_cons_self : nonempty sep (sep :: rest) = nonempty sep rest := by
  simp [nonempty]

/-- A unit before a separator or the end is a line of its own. -/
theorem nonempty_cons_last (hunit : unit ≠ sep) (hrest : ∀ next ∈ rest.head?, next = sep) :
    nonempty sep (unit :: rest) = [unit] :: nonempty sep rest := by
  cases rest with
  | nil => simp [nonempty, lines, hunit]
  | cons next rest =>
      obtain rfl : next = sep := hrest next rfl
      simp [nonempty, lines_cons hunit lines_cons_self]

/-- A unit before another one is the first one of that line. -/
theorem nonempty_cons_cons (hunit : unit ≠ sep) (hnext : next ≠ sep) (rest : List α) :
    ∃ line later, nonempty sep (next :: rest) = line :: later ∧
      nonempty sep (unit :: next :: rest) = (unit :: line) :: later := by
  obtain ⟨line, later, hlines⟩ :
      ∃ line later, lines sep (next :: rest) = (next :: line) :: later := by
    cases hrest : lines sep rest with
    | nil => exact ⟨[], [], by rw [lines, if_neg hnext, hrest]⟩
    | cons line later => exact ⟨line, later, lines_cons hnext hrest⟩
  refine ⟨next :: line, later.filter fun line => !line.isEmpty, ?_, ?_⟩
  · simp [nonempty, hlines]
  · simp [nonempty, lines_cons hunit hlines]

/-- There is a non-empty line if there is anything but separators. -/
theorem nonempty_ne_nil : nonempty sep stream ≠ [] ↔ ∃ unit ∈ stream, unit ≠ sep := by
  induction stream with
  | nil => simp
  | cons unit rest ih =>
      by_cases hunit : unit = sep
      · subst hunit
        simp [ih]
      · refine iff_of_true ?_ ⟨unit, List.mem_cons_self, hunit⟩
        by_cases hrest : ∀ next ∈ rest.head?, next = sep
        · rw [nonempty_cons_last hunit hrest]
          exact List.cons_ne_nil _ _
        · cases rest with
          | nil => exact absurd (fun next hnext => by simp at hnext) hrest
          | cons next rest =>
              have hnext : next ≠ sep := by simpa using hrest
              obtain ⟨line, later, -, hcons⟩ := nonempty_cons_cons hunit hnext rest
              rw [hcons]
              exact List.cons_ne_nil _ _

omit [DecidableEq α] in
theorem parted_cons_cons {first second : List α} :
    Parted sep (unit :: next :: first) second ↔ Parted sep (next :: first) second := by
  simp [Parted]

/-- Where no line crosses the boundary, both streams keep their lines. -/
theorem nonempty_append {first second : List α} (h : Parted sep first second) :
    nonempty sep (first ++ second) = nonempty sep first ++ nonempty sep second := by
  induction first with
  | nil => simp
  | cons unit first ih =>
      cases first with
      | nil =>
          by_cases hunit : unit = sep
          · subst hunit
            simp
          · have hlast : ∀ next ∈ second.head?, next = sep :=
              fun next hnext => (h unit rfl next hnext).resolve_left hunit
            rw [List.singleton_append, nonempty_cons_last hunit hlast,
              nonempty_cons_last hunit (by simp)]
            rfl
      | cons next first =>
          rw [parted_cons_cons] at h
          by_cases hunit : unit = sep
          · subst hunit
            rw [List.cons_append, nonempty_cons_self, nonempty_cons_self, ih h]
          · by_cases hnext : next = sep
            · rw [List.cons_append, nonempty_cons_last hunit (by simp [hnext]),
                nonempty_cons_last hunit (by simp [hnext]), ih h, List.cons_append]
            · obtain ⟨line, later, hfirst, hcons⟩ := nonempty_cons_cons hunit hnext first
              obtain ⟨line', later', hboth, hcons'⟩ :=
                nonempty_cons_cons hunit hnext (first ++ second)
              rw [List.cons_append, List.cons_append, hcons', hcons, List.cons_append]
              rw [List.cons_append, hboth, hfirst, List.cons_append, List.cons.injEq] at ih
              rw [(ih h).1, (ih h).2]

/-- What is neither empty nor parted is a line of its own. -/
theorem nonempty_of_notMem {line : List α} (hline : sep ∉ line) (hne : line ≠ []) :
    nonempty sep line = [line] := by
  rw [nonempty, lines_of_notMem hline hne, List.filter_cons_of_pos (by simpa using hne),
    List.filter_nil]

/-- Lines that are written out, and then something that does not go on with the last one, are
found again. -/
theorem nonempty_preceded_append {lines : List (List α)}
    (h : ∀ line ∈ lines, sep ∉ line ∧ line ≠ []) (rest : List α)
    (hrest : ∀ next ∈ rest.head?, next = sep) :
    nonempty sep (preceded sep lines ++ rest) = lines ++ nonempty sep rest := by
  induction lines with
  | nil => rfl
  | cons line later ih =>
      obtain ⟨⟨hline, hne⟩, hlater⟩ := List.forall_mem_cons.1 h
      have hparted : Parted sep line (preceded sep later ++ rest) := by
        intro unit _ next hnext
        cases later with
        | nil => exact .inr (hrest next hnext)
        | cons other later => exact .inr (Option.some.inj hnext).symm
      show nonempty sep (sep :: (line ++ preceded sep later) ++ rest) = _
      rw [List.cons_append, nonempty_cons_self, List.append_assoc, nonempty_append hparted,
        ih hlater, nonempty_of_notMem hline hne]
      rfl

/-- Where a line crosses the boundary, the streams joined have one line less. -/
theorem length_nonempty_append {first second : List α} (h : ¬Parted sep first second) :
    (nonempty sep (first ++ second)).length + 1 =
      (nonempty sep first).length + (nonempty sep second).length := by
  induction first with
  | nil => exact absurd (fun unit hunit => by simp at hunit) h
  | cons unit first ih =>
      cases first with
      | nil =>
          cases second with
          | nil => exact absurd (fun _ _ next hnext => by simp at hnext) h
          | cons next second =>
              obtain ⟨hunit, hnext⟩ : unit ≠ sep ∧ next ≠ sep := by
                simpa [Parted] using h
              obtain ⟨line, later, hsecond, hcons⟩ := nonempty_cons_cons hunit hnext second
              rw [List.singleton_append, hcons, hsecond, nonempty_cons_last hunit (by simp)]
              simp only [List.length_cons, nonempty_nil, List.length_nil]
              omega
      | cons next first =>
          rw [parted_cons_cons] at h
          have hjoined := ih h
          rw [List.cons_append] at hjoined
          by_cases hunit : unit = sep
          · subst hunit
            rw [List.cons_append, nonempty_cons_self, nonempty_cons_self]
            exact hjoined
          · by_cases hnext : next = sep
            · rw [List.cons_append, nonempty_cons_last hunit (by simp [hnext]),
                nonempty_cons_last hunit (by simp [hnext])]
              simp only [List.length_cons, List.cons_append]
              omega
            · obtain ⟨line, later, hfirst, hcons⟩ := nonempty_cons_cons hunit hnext first
              obtain ⟨line', later', hboth, hcons'⟩ :=
                nonempty_cons_cons hunit hnext (first ++ second)
              rw [List.cons_append, List.cons_append, hcons', hcons]
              rw [hboth, hfirst] at hjoined
              simpa using hjoined

end Lines
