import Xiaoxin.ConfigLines

/-!
# Keys in a line

A line that says `key:value` has its key before the first colon. The code does not
look there: it takes the first key of its chain that occurs anywhere in the line
(`select`). No key occurs in another one, and none occurs in a text without an
underscore, so on a line whose value has no underscore the two agree (`select_line`).
-/
namespace Xiaoxin
open Getline Memory Numerals

/-- What begins a text behind a delimiter that it does not have is empty. -/
theorem eq_nil_of_prefix_cons {α : Type*} {d : α} {w b : List α} (hw : d ∉ w)
    (h : w <+: d :: b) : w = [] := by
  rcases List.prefix_cons_iff.mp h with rfl | ⟨t, rfl, -⟩
  · rfl
  · simp at hw

/-- What occurs in a text and has no delimiter occurs on one side of the delimiter. -/
theorem infix_append_cons {α : Type*} {d : α} {w a b : List α} (hw : d ∉ w) :
    w <:+: a ++ d :: b ↔ w <:+: a ∨ w <:+: b := by
  rw [List.infix_append_iff, List.infix_cons_iff]
  constructor
  · rintro (h | (h | h) | ⟨l₁, l₂, rfl, h₁, h₂⟩)
    · exact .inl h
    · rw [eq_nil_of_prefix_cons hw h]
      exact .inl (List.nil_infix)
    · exact .inr h
    · rw [List.mem_append, not_or] at hw
      rw [eq_nil_of_prefix_cons hw.2 h₂, List.append_nil]
      exact .inl h₁.isInfix
  · rintro (h | h)
    · exact .inl h
    · exact .inr (.inl (.inr h))

namespace ServerConfig
open ConfigData

/-- The text before the first colon, if there is a colon. -/
def keyText (text : List Char) : Option (List Char) :=
  if ':' ∈ text then some (text.takeWhile (· ≠ ':')) else none

/-- The text behind the first colon. -/
def behindColon (text : List Char) : List Char := (text.dropWhile (· ≠ ':')).tail

/-- The key with this text. -/
def Key.ofText (t : List Char) : Option Key := Key.chain.find? (fun k => k.text = t)

namespace Key

/-- The characters of the keys are kept, and they neither begin a comment nor end a key. -/
theorem forall_mem_text (k : Key) : ∀ a ∈ k.text, kept a = true ∧ a ≠ '-' ∧ a ≠ ':' :=
  k.text_shape.1

theorem colon_not_mem_text (k : Key) : ':' ∉ k.text :=
  fun h => (k.forall_mem_text _ h).2.2 rfl

theorem underscore_mem_text (k : Key) : '_' ∈ k.text := k.text_shape.2

/-- No key occurs in another one. -/
theorem eq_of_occurs {k k' : Key} (h : k.text <:+: k'.text) : k = k' := by
  -- the literals are read once, and numbers are compared faster than characters
  obtain ⟨f, hf, hall⟩ : ∃ f : Key → List Char, (∀ k, k.text = f k) ∧
      ∀ k k', (((f k').map Char.toNat).tails.any fun t =>
        ((f k).map Char.toNat).isPrefixOf t) = true → k = k' :=
    ⟨fun k => Key.casesOn k _ _ _ _ _ _ _ _ _ _ _ _ _ _ _ _ _,
      fun k => by cases k <;> exact String.toList_ofList, by decide +kernel⟩
  rw [hf, hf] at h
  obtain ⟨t, hprefix, hsuffix⟩ := List.infix_iff_prefix_suffix.mp (h.map Char.toNat)
  exact hall k k' (List.any_eq_true.mpr
    ⟨t, (List.mem_tails t _).mpr hsuffix, List.isPrefixOf_iff_prefix.mpr hprefix⟩)

theorem text_injective {k k' : Key} (h : k.text = k'.text) : k = k' :=
  eq_of_occurs (h ▸ List.infix_refl _)

theorem ofText_text (k : Key) : ofText k.text = some k := by
  cases h : ofText k.text with
  | none =>
    have hnone := List.find?_eq_none.mp h k k.mem_chain
    simp at hnone
  | some k' =>
    have hsome := List.find?_some h
    rw [text_injective (of_decide_eq_true hsome)]

end Key

theorem occurs_of_select {text : List Char} {k : Key} (h : select text = some k) :
    k.text <:+: text := by
  have hsome := List.find?_some h
  exact of_decide_eq_true hsome

/-- A key that occurs in the text makes the chain end with some key. -/
theorem exists_select {text : List Char} {k : Key} (h : k.text <:+: text) :
    ∃ k', select text = some k' := by
  cases hselect : select text with
  | none => exact absurd h (by simpa using List.find?_eq_none.mp hselect k k.mem_chain)
  | some k' => exact ⟨k', rfl⟩

/-- If no other key occurs in the text, the chain takes this one. -/
theorem select_eq {text : List Char} {k : Key} (h : ∀ k' : Key, k'.text <:+: text ↔ k' = k) :
    select text = some k := by
  obtain ⟨k', hk'⟩ := exists_select ((h k).mpr rfl)
  rw [hk', (h k').mp (occurs_of_select hk')]

/-! ## A line with a colon -/

section
variable {t v : List Char}

theorem forall_ne_colon (ht : ':' ∉ t) : ∀ a ∈ t, decide (a ≠ ':') = true := by
  intro a ha
  exact decide_eq_true fun h => ht (h ▸ ha)

theorem keyText_line (ht : ':' ∉ t) : keyText (t ++ ':' :: v) = some t := by
  rw [keyText, if_pos (by simp), List.takeWhile_append_of_pos (forall_ne_colon ht)]
  simp

theorem behindColon_line (ht : ':' ∉ t) : behindColon (t ++ ':' :: v) = v := by
  rw [behindColon, List.dropWhile_append_of_pos (forall_ne_colon ht)]
  simp

theorem valueText_line (ht : ':' ∉ t) : valueText (t ++ ':' :: v) = v := by
  have hpos : (t ++ ':' :: v).findIdx? (· = ':') = some t.length := by
    rw [List.findIdx?_append, List.findIdx?_eq_none_iff.mpr]
    · simp [List.findIdx?_cons]
    · intro a ha
      exact decide_eq_false fun h => ht (h ▸ ha)
  rw [valueText, hpos]
  simp

/-- The text before the first colon and the value make the text again. -/
theorem eq_of_keyText {text : List Char} (h : keyText text = some t) :
    ∃ v, text = t ++ ':' :: v ∧ ':' ∉ t := by
  rw [keyText] at h
  split at h
  · next hmem =>
    obtain ⟨s, v, rfl, hs⟩ := List.eq_append_cons_of_mem hmem
    have hts : some s = some t := by rw [← keyText_line hs, keyText, if_pos hmem, h]
    obtain rfl : s = t := Option.some.inj hts
    exact ⟨v, rfl, hs⟩
  · exact absurd h nofun

/-- A line with a key before the colon and no underscore behind it is an assignment to
that key. -/
theorem select_line (k : Key) (hv : '_' ∉ v) : select (k.text ++ ':' :: v) = some k := by
  refine select_eq fun k' => ?_
  rw [infix_append_cons k'.colon_not_mem_text]
  constructor
  · rintro (h | h)
    · exact Key.eq_of_occurs h
    · exact absurd (h.subset k'.underscore_mem_text) hv
  · rintro rfl
    exact .inl (List.infix_refl _)

end

end ServerConfig

end Xiaoxin
