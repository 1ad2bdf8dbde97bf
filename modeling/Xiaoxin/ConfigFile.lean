import Xiaoxin.ConfigFields

/-!
# Whole configuration files

What a file says is the previous configuration with one field updated for each line
that is an assignment (`applyAssignment`, on the fields alone). `ReadConfigScript`
gives just that on a file of valid lines (`reads_as_written`), as long as the decimal
numbers are below `INT_MAX` and not only below the bound of an unsigned field.

A line of 4096 characters or more ends the loop without an error, so `SUCCESS` says
that the file was read if and only if there is no such line (`success_reads_all_iff`).
-/
namespace Xiaoxin
open Getline Memory Numerals

namespace ServerConfig
open ConfigData

/-- The key and the value of an assignment. -/
def assignment (text : List Char) : Option (Key × List Char) :=
  (keyText text).bind fun t => (Key.ofText t).map fun k => (k, behindColon text)

/-- The configuration, field by field, after a line. -/
def applyAssignment (fields : Key → Value) (line : List Char) : Key → Value :=
  match assignment (keep line) with
  | some (k, value) => Function.update fields k (k.meaning value)
  | none => fields

/-- A line that is empty once it is cut and stripped, or an assignment of a valid value. -/
def WellFormed (limit : ℕ) (line : List Char) : Prop :=
  keep line = [] ∨ ∃ k value, keep line = k.text ++ ':' :: value ∧ Key.Valid limit k value

theorem assignment_nil : assignment [] = none := by
  decide

theorem assignment_line (k : Key) (value : List Char) :
    assignment (k.text ++ ':' :: value) = some (k, value) := by
  have hcolon := k.colon_not_mem_text
  simp [assignment, keyText_line hcolon, behindColon_line hcolon, Key.ofText_text]

theorem applyAssignment_line {line : List Char} {k : Key} {value : List Char}
    (h : keep line = k.text ++ ':' :: value) (fields : Key → Value) :
    applyAssignment fields line = Function.update fields k (k.meaning value) := by
  rw [applyAssignment, h, assignment_line]

theorem not_mem_of_plain {value : List Char} (h : ∀ a ∈ value, plain a = true) :
    '_' ∉ value := by
  intro hmem
  exact absurd (h _ hmem) (by decide)

theorem filtered_of_not_mem {line : List Char} (h : '\x00' ∉ line) : filtered line = keep line := by
  rw [filtered, cstr_of_forall]
  rintro a ha rfl
  exact h ha

/-- A well-formed line updates the field of its key and no other one. -/
theorem applyLine_get {line : List Char} (hnul : '\x00' ∉ line)
    (h : WellFormed (2 ^ 31) line) (c : ConfigData) :
    (applyLine c line).get = applyAssignment c.get line := by
  rcases h with h | ⟨k, value, h, hvalid⟩
  · rw [applyLine, applyAssignment, filtered_of_not_mem hnul, h, select_nil, assignment_nil]
  · rw [applyLine, applyAssignment_line h, filtered_of_not_mem hnul, h,
      select_line k (not_mem_of_plain hvalid.1)]
    dsimp only
    rw [valueText_line k.colon_not_mem_text]
    funext k'
    by_cases hk : k' = k
    · rw [hk, Function.update_self, assign_get_self hvalid]
    · rw [Function.update_of_ne hk, assign_get_of_ne hvalid.fits hk]

theorem foldl_applyLine_get {ls : List (List Char)} (hnul : ∀ l ∈ ls, '\x00' ∉ l)
    (h : ∀ l ∈ ls, WellFormed (2 ^ 31) l) (c : ConfigData) :
    (ls.foldl applyLine c).get = ls.foldl applyAssignment c.get := by
  induction ls generalizing c with
  | nil => rfl
  | cons l ls ih =>
    rw [List.forall_mem_cons] at hnul h
    rw [List.foldl_cons, List.foldl_cons, ih hnul.2 h.2, applyLine_get hnul.1 h.1]

/-- `ReadConfigScript` on a file without a NUL, each line of which fits into the buffer
and is empty, a comment or a valid assignment: the configuration is the previous one
with the assignments made from the first line to the last. -/
theorem reads_as_written (text : List Char) (c : ConfigData) (hnul : '\x00' ∉ text)
    (h : ∀ l ∈ lines '\n' text, l.length < bufferSize ∧ WellFormed (2 ^ 31) l) :
    (readConfigScript (some text) c).1 = .success ∧
      (readConfigScript (some text) c).2.get =
        (lines '\n' text).foldl applyAssignment c.get := by
  have hlines := (getlines_eq_lines_iff (by decide) text).mpr fun l hl => (h l hl).1
  have hclean : ∀ l ∈ lines '\n' text, '\x00' ∉ l :=
    fun l hl hmem => hnul (mem_of_mem_lines hl _ hmem).1
  rw [readConfigScript_eq, hlines]
  exact ⟨rfl, foldl_applyLine_get hclean (fun l hl => (h l hl).2) c⟩

theorem reads_as_written_three_lines :
    (readConfigScript (some
      "_port1:6002\t--x\n\n_database_name:\"Db\"\n".toList) default).2.get .dbName =
        .wide ([68, 98] ++ List.replicate 48 0) := by
  have hlines : lines '\n' "_port1:6002\t--x\n\n_database_name:\"Db\"\n".toList =
      ["_port1:6002\t--x".toList, [], "_database_name:\"Db\"".toList] := by decide +kernel
  have hport : keep "_port1:6002\t--x".toList = Key.port1.text ++ ':' :: "6002".toList := by
    decide +kernel
  have hname : keep "_database_name:\"Db\"".toList = Key.dbName.text ++ ':' :: "Db".toList := by
    decide +kernel
  have h := (reads_as_written "_port1:6002\t--x\n\n_database_name:\"Db\"\n".toList default
    (by decide +kernel) ?_).2
  · rw [h, hlines, List.foldl_cons, List.foldl_cons, List.foldl_cons, List.foldl_nil,
      applyAssignment_line hname, Function.update_self]
    decide +kernel
  · rw [hlines]
    simp only [List.forall_mem_cons, List.not_mem_nil, false_imp_iff, implies_true, and_true]
    exact ⟨⟨by decide +kernel, .inr ⟨.port1, _, hport, by decide +kernel⟩⟩,
      ⟨by decide +kernel, .inl (by decide)⟩,
      ⟨by decide +kernel, .inr ⟨.dbName, _, hname, by decide +kernel⟩⟩⟩

/-- `atoi` ends at `INT_MAX`, whatever the unsigned field could hold. -/
theorem large_port_not_read_as_written :
    ¬ ∀ (text : List Char) (c : ConfigData), '\x00' ∉ text →
      (∀ l ∈ lines '\n' text, l.length < bufferSize ∧ WellFormed (2 ^ 32) l) →
      (readConfigScript (some text) c).1 = .success ∧
        (readConfigScript (some text) c).2.get =
          (lines '\n' text).foldl applyAssignment c.get := by
  intro h
  have hlines : lines '\n' "_port1:3000000000".toList = ["_port1:3000000000".toList] := by
    decide +kernel
  have hvalid : WellFormed (2 ^ 32) "_port1:3000000000".toList :=
    .inr ⟨.port1, "3000000000".toList, by decide +kernel, by decide +kernel⟩
  have hread := (h "_port1:3000000000".toList default (by decide +kernel) (by
    rw [hlines]
    simpa only [List.forall_mem_singleton] using ⟨by decide +kernel, hvalid⟩)).2
  rw [readConfigScript_eq, getlines_eq (by decide), hlines] at hread
  have hport := congrFun hread .port1
  exact absurd hport (by decide +kernel)

/-! ## Reading up to the end -/

theorem line_clean (k : Key) {value : List Char} (h : ∀ a ∈ value, plain a = true) :
    '\x00' ∉ k.text ++ ':' :: value ∧ '\n' ∉ k.text ++ ':' :: value := by
  have hkey : '\x00' ∉ k.text ∧ '\n' ∉ k.text :=
    ⟨fun hmem => absurd (k.forall_mem_text _ hmem).1 (by decide),
      fun hmem => absurd (k.forall_mem_text _ hmem).1 (by decide)⟩
  have hvalue : '\x00' ∉ value ∧ '\n' ∉ value :=
    ⟨fun hmem => absurd (h _ hmem) (by decide), fun hmem => absurd (h _ hmem) (by decide)⟩
  simp [hkey, hvalue]

theorem keep_line (k : Key) {value : List Char} (h : ∀ a ∈ value, plain a = true) :
    keep (k.text ++ ':' :: value) = k.text ++ ':' :: value := by
  have hvalue : ∀ a ∈ value, a ≠ '-' ∧ kept a = true := by
    intro a ha
    have hplain := h a ha
    simp only [plain, Bool.and_eq_true] at hplain
    refine ⟨?_, hplain.1.1⟩
    rintro rfl
    exact absurd hplain.1.1 (by decide)
  have hall : ∀ a ∈ k.text ++ ':' :: value, a ≠ '-' ∧ kept a = true := by
    simp only [List.mem_append, List.mem_cons]
    rintro a (ha | rfl | ha)
    · exact ⟨(k.forall_mem_text a ha).2.1, (k.forall_mem_text a ha).1⟩
    · decide
    · exact hvalue a ha
  rw [keep, List.takeWhile_eq_self_iff.mpr (by simpa using fun a ha => (hall a ha).1),
    List.filter_eq_self.mpr fun a ha => (hall a ha).2]

theorem filtered_line (k : Key) {value : List Char} (h : ∀ a ∈ value, plain a = true) :
    filtered (k.text ++ ':' :: value) = k.text ++ ':' :: value := by
  rw [filtered_of_not_mem (line_clean k h).1, keep_line k h]

/-- The assignment of a valid value takes effect. -/
theorem applyLine_get_self {k : Key} {value : List Char} (h : k.Valid (2 ^ 31) value)
    (c : ConfigData) : (applyLine c (k.text ++ ':' :: value)).get k = k.meaning value := by
  have hkeep := keep_line k h.1
  rw [applyLine_get (line_clean k h.1).1 (.inr ⟨k, value, hkeep, h⟩), applyAssignment_line hkeep]
  exact Function.update_self ..

/-- `Initialize` gives `SUCCESS` for every file that can be opened. It has read all
lines, and a valid assignment that is appended takes effect, if and only if each line
has fewer than 4096 characters. -/
theorem success_reads_all_iff (text : List Char) (c : ConfigData) :
    initializeWith (some text) c =
        (.success, (getlines '\n' bufferSize text).foldl applyLine c) ∧
      (getlines '\n' bufferSize text = lines '\n' text ↔
        ∀ l ∈ lines '\n' text, l.length < bufferSize) ∧
      ((∀ text' k value, lines '\n' text' = lines '\n' text ++ [k.text ++ ':' :: value] →
          k.Valid (2 ^ 31) value → (k.text ++ ':' :: value).length < bufferSize →
          (initializeWith (some text') c).2.get k = k.meaning value) ↔
        ∀ l ∈ lines '\n' text, l.length < bufferSize) := by
  have hinit (t : List Char) : initializeWith (some t) c = readConfigScript (some t) c := by
    rw [initializeWith, readConfigScript_eq]
  simp only [hinit]
  refine ⟨readConfigScript_eq text c, getlines_eq_lines_iff (by decide) text, ?_, ?_⟩
  · -- with a line that is too long the file reads the same with "1" and with "2" behind it
    intro h
    by_contra hlong
    have hsame (value : List Char) (hvalid : Key.port1.Valid (2 ^ 31) value)
        (hlen : (Key.port1.text ++ ':' :: value).length < bufferSize) :
        (readConfigScript (some text) c).2.get .port1 = Key.port1.meaning value := by
      obtain ⟨text', htext'⟩ := exists_lines_append '\n' text (line_clean .port1 hvalid.1).2
      have hget := h text' .port1 value htext' hvalid hlen
      rw [readConfigScript_append c htext', if_neg] at hget
      · exact hget
      · intro hall
        exact hlong fun l hl => hall l (htext' ▸ List.mem_append_left _ hl)
    obtain ⟨hvalid, hvalid', hne⟩ := Key.port1.valid_one_two
    have hone := hsame ['1'] hvalid (by decide)
    have htwo := hsame ['2'] hvalid' (by decide)
    exact hne (hone.symm.trans htwo)
  · intro h text' k value htext' hvalid hlen
    rw [readConfigScript_append c htext', if_pos]
    · exact applyLine_get_self hvalid _
    · rw [htext']
      simpa only [List.forall_mem_append, List.forall_mem_singleton] using ⟨h, hlen⟩

/-- A file whose only line has 4096 characters. -/
theorem long_line_not_read :
    ¬ ∀ (text : List Char) (c : ConfigData), (initializeWith (some text) c).1 = .success →
      getlines '\n' bufferSize text = lines '\n' text := by
  intro h
  have hread := h (List.replicate 4096 'x') default (by rw [initializeWith, readConfigScript_eq])
  have hline : '\n' ∉ List.replicate 4096 'x' := fun hmem =>
    absurd (List.eq_of_mem_replicate hmem) (by decide)
  rw [getlines_eq_lines_iff (by decide), lines_last '\n' hline
    (List.ne_nil_of_length_pos (by rw [List.length_replicate]; decide))] at hread
  have hlen := hread _ (List.mem_singleton_self _)
  rw [List.length_replicate] at hlen
  exact absurd hlen (by decide)

end ServerConfig

end Xiaoxin
