import Xiaoxin.ServerConfig

/-!
# What one line does

Between two lines `tmpTransferStation` is clear, also after a line without a character
to keep: such a line has stored nothing in it. So the text that a line is searched for
keys in depends on the line alone (`filtered`), and the loop folds `applyLine` over
the lines that `getline` can read (`readConfigScript_eq`).
-/
namespace Xiaoxin
open Getline Memory Numerals

theorem cstr_append_nul (s rest : List Char) : cstr (s ++ '\x00' :: rest) = cstr s := by
  induction s with
  | nil => rfl
  | cons a s ih =>
    unfold cstr at ih ⊢
    by_cases ha : a = '\x00'
    · simp [ha]
    · rw [List.cons_append, List.takeWhile_cons_of_pos (by simpa using ha), ih,
        List.takeWhile_cons_of_pos (by simpa using ha)]

theorem cstr_of_forall {s : List Char} (h : ∀ a ∈ s, a ≠ '\x00') : cstr s = s := by
  simpa [cstr, List.takeWhile_eq_self_iff] using h

namespace ServerConfig
open ConfigData

/-- Up to the first `-`, and only the characters that may stand in a key or a value. -/
def keep (s : List Char) : List Char := (s.takeWhile (· ≠ '-')).filter kept

/-- The text of a line in which keys are searched for. -/
def filtered (line : List Char) : List Char := keep (cstr line)

/-- What the value pointer of the line points to. -/
def valueText (text : List Char) : List Char :=
  match text.findIdx? (· = ':') with
  | some pos => text.drop (pos + 1)
  | none => text

/-- The assignment that a line makes. -/
def applyLine (c : ConfigData) (line : List Char) : ConfigData :=
  match select (filtered line) with
  | some k => assign (valueText (filtered line)) c k
  | none => c

theorem kept_ne_nul {a : Char} (h : kept a = true) : a ≠ '\x00' := by
  rintro rfl
  exact absurd h (by decide)

theorem keep_dash (s : List Char) : keep ('-' :: s) = [] := by
  simp [keep]

theorem keep_of_kept {a : Char} (hcut : a ≠ '-') (ha : kept a = true) (s : List Char) :
    keep (a :: s) = a :: keep s := by
  simp [keep, hcut, ha]

theorem keep_of_not_kept {a : Char} (hcut : a ≠ '-') (ha : ¬ kept a = true) (s : List Char) :
    keep (a :: s) = keep s := by
  simp [keep, hcut, ha]

theorem forall_mem_filtered (line : List Char) : ∀ a ∈ filtered line, kept a = true := by
  intro a ha
  exact (List.mem_filter.mp ha).2

theorem length_filtered_le (line : List Char) : (filtered line).length ≤ line.length :=
  calc (filtered line).length
    _ ≤ ((cstr line).takeWhile (· ≠ '-')).length := List.length_filter_le ..
    _ ≤ (cstr line).length := (List.takeWhile_prefix _).length_le
    _ ≤ line.length := (List.takeWhile_prefix _).length_le

theorem cstr_fillBuffer (line buffer : List Char) : cstr (fillBuffer line buffer) = cstr line :=
  cstr_append_nul line _

/-! ## The transfer station -/

/-- The loop stores the kept characters one behind the other. -/
theorem transfer_eq (as front back : List Char) (h : (keep as).length ≤ back.length) :
    transfer as front.length (front ++ back) =
      front ++ keep as ++ back.drop (keep as).length := by
  induction as generalizing front back with
  | nil => simp [transfer, keep]
  | cons a as ih =>
    unfold transfer
    by_cases hcut : a = '-'
    · simp [hcut, keep_dash]
    · rw [if_neg hcut]
      by_cases hkept : kept a = true
      · rw [keep_of_kept hcut hkept] at h ⊢
        rw [if_pos hkept]
        obtain ⟨b, back, rfl⟩ := List.exists_cons_of_length_pos (Nat.lt_of_lt_of_le
          (Nat.succ_pos _) h)
        have hset : (front ++ b :: back).set front.length a = (front ++ [a]) ++ back := by
          simp [List.set_append_right]
        have hlen : front.length + 1 = (front ++ [a]).length := by simp
        rw [hset, hlen, ih (front ++ [a]) back (by simpa using h)]
        simp
      · rw [keep_of_not_kept hcut hkept] at h ⊢
        rw [if_neg hkept]
        exact ih front back h

/-- On a clear station a line leaves its text, and zeros behind it. -/
theorem transfer_zeros {line : List Char} (h : line.length < bufferSize) :
    transfer (cstr line) 0 zeros =
      filtered line ++
        '\x00' :: List.replicate (bufferSize - (filtered line).length - 1) '\x00' := by
  have hle : (filtered line).length < bufferSize := (length_filtered_le line).trans_lt h
  have htransfer := transfer_eq (cstr line) [] zeros (by simpa [zeros, filtered] using hle.le)
  rw [List.length_nil, List.nil_append, List.nil_append] at htransfer
  rw [htransfer]
  have hdrop : zeros.drop (filtered line).length =
      '\x00' :: List.replicate (bufferSize - (filtered line).length - 1) '\x00' := by
    rw [zeros, List.drop_replicate, ← List.replicate_succ]
    congr 1
    omega
  rw [← hdrop]
  rfl

theorem cstr_station (line : List Char) (rest : List Char) :
    cstr (filtered line ++ '\x00' :: rest) = filtered line := by
  rw [cstr_append_nul]
  exact cstr_of_forall fun a ha => kept_ne_nul (forall_mem_filtered line a ha)

theorem cstr_valuePointer (line rest : List Char) :
    cstr (valuePointer (filtered line) (filtered line ++ '\x00' :: rest)) =
      valueText (filtered line) := by
  have hclean : ∀ a ∈ filtered line, a ≠ '\x00' :=
    fun a ha => kept_ne_nul (forall_mem_filtered line a ha)
  unfold valuePointer valueText
  cases hpos : (filtered line).findIdx? (· = ':') with
  | none => exact cstr_station line rest
  | some pos =>
    have hlt : pos < (filtered line).length := (List.findIdx?_eq_some_iff_getElem.mp hpos).1
    dsimp only
    rw [List.drop_append_of_le_length hlt, cstr_append_nul]
    exact cstr_of_forall fun a ha => hclean a (List.mem_of_mem_drop ha)

/-! ## The body and the loop -/

theorem Key.text_shape (k : Key) :
    (∀ a ∈ k.text, kept a = true ∧ a ≠ '-' ∧ a ≠ ':') ∧ '_' ∈ k.text := by
  obtain ⟨l, hl, hall⟩ : ∃ l, k.text = l ∧
      (l.all (fun a => kept a && (a ≠ '-' && a ≠ ':')) && l.contains '_') = true := by
    cases k <;> exact ⟨_, String.toList_ofList, by decide +kernel⟩
  simpa only [hl, List.all_eq_true, Bool.and_eq_true, decide_eq_true_eq, List.contains_iff_mem]
    using hall

theorem select_nil : select [] = none := by
  refine List.find?_eq_none.mpr fun k _ hk => ?_
  have hmem := (of_decide_eq_true hk).subset k.text_shape.2
  exact absurd hmem List.not_mem_nil

/-- On a clear station the body of the loop makes the line's assignment and leaves the
station clear. -/
theorem body_eq (buffer : List Char) (c : ConfigData) {line : List Char}
    (h : line.length < bufferSize) :
    (body ⟨buffer, zeros, c⟩ line).tmpTransferStation = zeros ∧
      (body ⟨buffer, zeros, c⟩ line).config = applyLine c line := by
  unfold body applyLine
  simp only [cstr_fillBuffer, transfer_zeros h, cstr_station, cstr_valuePointer]
  by_cases htext : filtered line = []
  · have hlen : bufferSize - 0 - 1 + 1 = bufferSize := rfl
    simp only [htext, if_true, List.length_nil, List.nil_append, select_nil, and_true]
    rw [← List.replicate_succ, hlen, zeros]
  · rw [if_neg htext]
    cases select (filtered line) with
    | none => exact ⟨rfl, rfl⟩
    | some k => exact ⟨rfl, rfl⟩

theorem foldl_body {ls : List (List Char)} (h : ∀ l ∈ ls, l.length < bufferSize)
    (buffer : List Char) (c : ConfigData) :
    (ls.foldl body ⟨buffer, zeros, c⟩).config = ls.foldl applyLine c := by
  induction ls generalizing buffer c with
  | nil => rfl
  | cons l ls ih =>
    rw [List.forall_mem_cons] at h
    obtain ⟨hstation, hconfig⟩ := body_eq buffer c h.1
    rw [List.foldl_cons, List.foldl_cons, ← hconfig]
    generalize body ⟨buffer, zeros, c⟩ l = b at hstation
    obtain ⟨buffer', station, c'⟩ := b
    obtain rfl : station = zeros := hstation
    exact ih h.2 buffer' c'

/-- Reading a file makes the assignments of its lines from the first one on, up to a line
that does not fit into the buffer. -/
theorem readConfigScript_eq (text : List Char) (c : ConfigData) :
    readConfigScript (some text) c =
      (.success, (getlines '\n' bufferSize text).foldl applyLine c) := by
  have hsize : 0 < bufferSize := by decide
  rw [readConfigScript, readWhile_eq hsize, ← getlines_eq hsize, foldl_body]
  intro l hl
  rw [getlines_eq hsize] at hl
  simpa using List.mem_takeWhile_imp hl

/-- A file with one more line: the line makes its assignment last, unless the loop has
ended before. -/
theorem readConfigScript_append {text text' line : List Char} (c : ConfigData)
    (h : lines '\n' text' = lines '\n' text ++ [line]) :
    (readConfigScript (some text') c).2 =
      if ∀ l ∈ lines '\n' text', l.length < bufferSize then
        applyLine (readConfigScript (some text) c).2 line
      else (readConfigScript (some text) c).2 := by
  rw [readConfigScript_eq, readConfigScript_eq, getlines_append (by decide) h]
  split
  · rw [List.foldl_append]
    rfl
  · rfl

end ServerConfig

end Xiaoxin
