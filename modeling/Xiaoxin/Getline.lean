import Mathlib.Data.List.TakeWhile
import Mathlib.Tactic

/-!
# Reading a text line by line into a bounded buffer

An input stream is the characters that are left and its two flags. `getline`
takes the next line without its delimiter, as long as the line fits into the
buffer; a line that does not fit sets `failbit`, and so does an attempt to read at
the end of the text. `readWhile` is the loop `while (in.getline(buffer, size))`.

The loop hands its body exactly the lines before the first one that does not fit
(`readWhile_eq`), so it has read the whole text if and only if every line fits
(`getlines_eq_lines_iff`). Nothing in this file depends on what is read.
-/
namespace Xiaoxin.Getline

variable {α β : Type*} [DecidableEq α]

/-- The characters that were not extracted yet, `eofbit` and `failbit`. -/
structure Stream (α : Type*) where
  rest : List α
  eof : Bool
  fail : Bool

/-- A stream that was just opened on a text. -/
def Stream.open (text : List α) : Stream α := ⟨text, false, false⟩

/-- Extract up to the delimiter with room for `room` more characters. The end of the
text and the delimiter are looked for before the room is. -/
def extract (delim : α) : ℕ → List α → List α × Stream α
  | _, [] => ([], ⟨[], true, false⟩)
  | room, a :: as =>
    if a = delim then ([], ⟨as, false, false⟩)
    else
      match room with
      | 0 => ([], ⟨a :: as, false, true⟩)
      | room + 1 => ((a :: (extract delim room as).1), (extract delim room as).2)

/-- `in.getline(buffer, size)`: the characters that were stored, and the stream after. -/
def getline (delim : α) (size : ℕ) (s : Stream α) : List α × Stream α :=
  if s.eof || s.fail then ([], ⟨s.rest, s.eof, true⟩)
  else if s.rest = [] then ([], ⟨[], true, true⟩)
  else extract delim (size - 1) s.rest

/-- The lines of a text; what follows the last delimiter is one if it is not empty. -/
def lines (delim : α) : List α → List (List α)
  | [] => []
  | a :: as =>
    if a = delim then [] :: lines delim as
    else
      match lines delim as with
      | [] => [[a]]
      | l :: ls => (a :: l) :: ls

/-- The text with these lines. -/
def unlines (delim : α) (ls : List (List α)) : List α := (ls.map (· ++ [delim])).flatten

/-! ## One line -/

theorem lines_append (delim : α) {l : List α} (hl : delim ∉ l) (text : List α) :
    lines delim (l ++ delim :: text) = l :: lines delim text := by
  induction l with
  | nil => simp [lines]
  | cons a l ih =>
    rw [List.mem_cons, not_or] at hl
    simp [lines, Ne.symm hl.1, ih hl.2]

theorem lines_last (delim : α) {l : List α} (hl : delim ∉ l) (hne : l ≠ []) :
    lines delim l = [l] := by
  induction l with
  | nil => exact absurd rfl hne
  | cons a l ih =>
    rw [List.mem_cons, not_or] at hl
    by_cases h : l = []
    · simp [h, lines, Ne.symm hl.1]
    · simp [lines, Ne.symm hl.1, ih hl.2 h]

theorem lines_unlines (delim : α) {ls : List (List α)} (h : ∀ l ∈ ls, delim ∉ l) (text : List α) :
    lines delim (unlines delim ls ++ text) = ls ++ lines delim text := by
  induction ls with
  | nil => rfl
  | cons l ls ih =>
    rw [List.forall_mem_cons] at h
    have hcons : unlines delim (l :: ls) ++ text = l ++ delim :: (unlines delim ls ++ text) := by
      simp [unlines]
    rw [hcons, lines_append delim h.1, ih h.2, List.cons_append]

theorem mem_of_mem_lines {delim : α} {l : List α} {text : List α} (hl : l ∈ lines delim text) :
    ∀ a ∈ l, a ∈ text ∧ a ≠ delim := by
  induction text generalizing l with
  | nil => simp [lines] at hl
  | cons b text ih =>
    intro a ha
    unfold lines at hl
    split at hl
    · rcases List.mem_cons.mp hl with rfl | hl
      · simp at ha
      · exact ⟨List.mem_cons_of_mem b (ih hl a ha).1, (ih hl a ha).2⟩
    · next hb =>
      cases hlines : lines delim text with
      | nil =>
        simp only [hlines, List.mem_singleton] at hl
        obtain rfl : a = b := by rwa [hl, List.mem_singleton] at ha
        exact ⟨List.mem_cons_self .., hb⟩
      | cons l' ls =>
        simp only [hlines, List.mem_cons] at hl ih
        rcases hl with rfl | hl
        · rcases List.mem_cons.mp ha with rfl | ha
          · exact ⟨List.mem_cons_self .., hb⟩
          · exact ⟨List.mem_cons_of_mem b (ih (.inl rfl) a ha).1, (ih (.inl rfl) a ha).2⟩
        · exact ⟨List.mem_cons_of_mem b (ih (.inr hl) a ha).1, (ih (.inr hl) a ha).2⟩

/-- Every text can be given one more line. -/
theorem exists_lines_append (delim : α) (text : List α) {l : List α} (hl : delim ∉ l) :
    ∃ text', lines delim text' = lines delim text ++ [l] := by
  refine ⟨unlines delim (lines delim text ++ [l]), ?_⟩
  have hall : ∀ x ∈ lines delim text ++ [l], delim ∉ x := by
    simp only [List.mem_append, List.mem_singleton]
    rintro x (hx | rfl) hmem
    · exact (mem_of_mem_lines hx delim hmem).2 rfl
    · exact hl hmem
  simpa [lines] using lines_unlines delim hall []

/-- A text is empty, a last line, or a line with its delimiter before another text. -/
theorem exists_line (delim : α) (text : List α) :
    text = [] ∨ (text ≠ [] ∧ delim ∉ text) ∨
      ∃ l rest, delim ∉ l ∧ text = l ++ delim :: rest := by
  by_cases h : delim ∈ text
  · obtain ⟨l, rest, rfl, hl⟩ := List.eq_append_cons_of_mem h
    exact .inr (.inr ⟨l, rest, hl, rfl⟩)
  · by_cases hne : text = []
    · exact .inl hne
    · exact .inr (.inl ⟨hne, h⟩)

/-! ## What `getline` extracts -/

theorem extract_line (delim : α) {l : List α} (hl : delim ∉ l) (text : List α) {room : ℕ}
    (hroom : l.length ≤ room) : extract delim room (l ++ delim :: text) = (l, .open text) := by
  induction l generalizing room with
  | nil =>
    unfold extract
    simp [Stream.open]
  | cons a l ih =>
    rw [List.mem_cons, not_or] at hl
    obtain ⟨room, rfl⟩ := Nat.exists_eq_add_of_lt (Nat.lt_of_lt_of_le (Nat.succ_pos _) hroom)
    simp only [List.length_cons, Nat.zero_add, Nat.add_le_add_iff_right] at hroom
    simp [extract, Ne.symm hl.1, ih hl.2 hroom]

theorem extract_last (delim : α) {l : List α} (hl : delim ∉ l) {room : ℕ}
    (hroom : l.length ≤ room) : extract delim room l = (l, ⟨[], true, false⟩) := by
  induction l generalizing room with
  | nil => simp [extract]
  | cons a l ih =>
    rw [List.mem_cons, not_or] at hl
    obtain ⟨room, rfl⟩ := Nat.exists_eq_add_of_lt (Nat.lt_of_lt_of_le (Nat.succ_pos _) hroom)
    simp only [List.length_cons, Nat.zero_add, Nat.add_le_add_iff_right] at hroom
    simp [extract, Ne.symm hl.1, ih hl.2 hroom]

/-- A line with more characters than there is room for sets `failbit`. -/
theorem extract_fail (delim : α) {l : List α} (hl : delim ∉ l) (text : List α) {room : ℕ}
    (hroom : room < l.length) : (extract delim room (l ++ text)).2.fail = true := by
  induction l generalizing room with
  | nil => simp at hroom
  | cons a l ih =>
    rw [List.mem_cons, not_or] at hl
    cases room with
    | zero => simp [extract, Ne.symm hl.1]
    | succ room =>
      rw [List.length_cons, Nat.add_lt_add_iff_right] at hroom
      simp [extract, Ne.symm hl.1, ih hl.2 hroom]

theorem extract_rest_length (delim : α) (room : ℕ) (text : List α) :
    (extract delim room text).2.rest.length ≤ text.length := by
  induction text generalizing room with
  | nil => simp [extract]
  | cons a text ih =>
    unfold extract
    split
    · simp
    · cases room with
      | zero => simp
      | succ room => exact (ih room).trans (Nat.le_succ _)

/-- A call that does not fail has extracted something. -/
theorem getline_rest_length {delim : α} {size : ℕ} {s : Stream α}
    (h : (getline delim size s).2.fail = false) :
    (getline delim size s).2.rest.length < s.rest.length := by
  unfold getline at h ⊢
  split at h
  · simp at h
  · next hflags =>
    split at h
    · simp at h
    · next hne =>
      rw [if_neg hflags, if_neg hne]
      obtain ⟨a, as, has⟩ := List.exists_cons_of_ne_nil hne
      rw [has] at h ⊢
      unfold extract at h ⊢
      split at h
      · next ha => simp [ha]
      · next ha =>
        rw [if_neg ha]
        cases hsize : size - 1 with
        | zero => simp [hsize] at h
        | succ room => exact Nat.lt_succ_of_le (extract_rest_length delim room as)

/-- After the last line without a delimiter there is nothing left to read. -/
theorem getline_eof (delim : α) (size : ℕ) (rest : List α) (fail : Bool) :
    (getline delim size ⟨rest, true, fail⟩).2.fail = true := by
  simp [getline]

/-! ## The loop -/

/-- `while (in.getline(buffer, size)) body`, where the body gets what was stored. -/
def readWhile (delim : α) (size : ℕ) (body : β → List α → β) (s : Stream α) (b : β) : β :=
  if _h : (getline delim size s).2.fail then b
  else readWhile delim size body (getline delim size s).2 (body b (getline delim size s).1)
termination_by s.rest.length
decreasing_by exact getline_rest_length (by simpa using _h)

variable {delim : α} {size : ℕ} {body : β → List α → β}

theorem readWhile_of_fail {s : Stream α} (h : (getline delim size s).2.fail = true) (b : β) :
    readWhile delim size body s b = b := by
  rw [readWhile, dif_pos h]

theorem readWhile_of_not_fail {s t : Stream α} {l : List α} (h : getline delim size s = (l, t))
    (ht : t.fail = false) (b : β) :
    readWhile delim size body s b = readWhile delim size body t (body b l) := by
  rw [readWhile, dif_neg (by simp [h, ht]), h]

theorem getline_open {text : List α} (hne : text ≠ []) :
    getline delim size (.open text) = extract delim (size - 1) text := by
  simp [getline, Stream.open, hne]

theorem readWhile_nil (b : β) : readWhile delim size body (.open []) b = b :=
  readWhile_of_fail (by simp [getline, Stream.open]) b

theorem readWhile_line {l : List α} (hl : delim ∉ l) (hlen : l.length < size) (text : List α)
    (b : β) : readWhile delim size body (.open (l ++ delim :: text)) b =
      readWhile delim size body (.open text) (body b l) := by
  refine readWhile_of_not_fail ?_ rfl b
  rw [getline_open (by simp)]
  exact extract_line delim hl text (by omega)

theorem readWhile_last {l : List α} (hl : delim ∉ l) (hne : l ≠ []) (hlen : l.length < size)
    (b : β) : readWhile delim size body (.open l) b = body b l := by
  rw [readWhile_of_not_fail ((getline_open hne).trans (extract_last delim hl (by omega))) rfl]
  exact readWhile_of_fail (getline_eof delim size [] false) _

variable (body) in
theorem readWhile_long {l : List α} (hl : delim ∉ l) (hlen : size ≤ l.length) (hsize : 0 < size)
    (text : List α) (b : β) : readWhile delim size body (.open (l ++ text)) b = b := by
  refine readWhile_of_fail ?_ b
  have hne : l ≠ [] := List.ne_nil_of_length_pos (by omega)
  rw [getline_open (by simp [hne])]
  exact extract_fail delim hl text (by omega)

/-- The body runs on the lines before the first one that does not fit, in their order. -/
theorem readWhile_eq (hsize : 0 < size) (text : List α) (b : β) :
    readWhile delim size body (.open text) b =
      ((lines delim text).takeWhile (fun l => decide (l.length < size))).foldl body b := by
  induction hn : text.length using Nat.strong_induction_on generalizing text b with
  | h n ih =>
    obtain rfl | ⟨hne, hl⟩ | ⟨l, rest, hl, rfl⟩ := exists_line delim text
    · simp [readWhile_nil, lines]
    · rw [lines_last delim hl hne]
      by_cases hlen : text.length < size
      · simp [readWhile_last hl hne hlen, hlen]
      · have hlong := readWhile_long body hl (not_lt.mp hlen) hsize [] b
        rw [List.append_nil] at hlong
        simp [hlong, hlen]
    · rw [lines_append delim hl]
      by_cases hlen : l.length < size
      · rw [readWhile_line hl hlen, ih rest.length (by simp at hn; omega) rest (body b l) rfl]
        simp [hlen]
      · simp [readWhile_long body hl (not_lt.mp hlen) hsize, hlen]

/-- The lines that the loop hands to its body. -/
def getlines (delim : α) (size : ℕ) (text : List α) : List (List α) :=
  readWhile delim size (fun ls l => ls ++ [l]) (.open text) []

theorem getlines_eq (hsize : 0 < size) (text : List α) :
    getlines delim size text =
      (lines delim text).takeWhile (fun l => decide (l.length < size)) := by
  rw [getlines, readWhile_eq hsize, List.foldl_append_eq_append, List.nil_append,
    ← List.flatMap_def, List.flatMap_singleton']

/-- A further line is handed to the body if it and those before it fit. -/
theorem getlines_append (hsize : 0 < size) {text text' : List α} {l : List α}
    (h : lines delim text' = lines delim text ++ [l]) :
    getlines delim size text' =
      if ∀ x ∈ lines delim text', x.length < size then getlines delim size text ++ [l]
      else getlines delim size text := by
  rw [getlines_eq hsize, getlines_eq hsize, h]
  split
  · next hall =>
    simp only [List.forall_mem_append, List.forall_mem_singleton] at hall
    have htake : (lines delim text).takeWhile (fun x => decide (x.length < size)) =
        lines delim text := List.takeWhile_eq_self_iff.mpr (by simpa using hall.1)
    rw [htake, List.takeWhile_append_of_pos (by simpa using hall.1)]
    simp [hall.2]
  · next hall =>
    rw [List.takeWhile_append]
    split
    · next hlen =>
      have htake := (List.takeWhile_prefix _).eq_of_length hlen
      have hfits := List.takeWhile_eq_self_iff.mp htake
      simp only [List.forall_mem_append, List.forall_mem_singleton, not_and] at hall
      have hlong := hall (by simpa using hfits)
      simp [hlong, htake]
    · rfl

/-- The loop reads the whole text exactly when each line fits into the buffer. -/
theorem getlines_eq_lines_iff (hsize : 0 < size) (text : List α) :
    getlines delim size text = lines delim text ↔ ∀ l ∈ lines delim text, l.length < size := by
  rw [getlines_eq hsize, List.takeWhile_eq_self_iff]
  simp only [decide_eq_true_eq]

end Xiaoxin.Getline
