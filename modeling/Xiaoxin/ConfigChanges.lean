import Xiaoxin.ConfigFile

/-!
# Which fields a line changes

The code takes a line for an assignment to the first key of the chain that occurs in it,
wherever that is. If this key is all that stands before the first colon and the value
does not reach the next field, the line changes the field of that key and no other
one; in every other case there are configurations in which it changes another field
(`only_key_selects_iff`).

For the database strings the cells that are written are within the array exactly if
the value is shorter than the array (`database_string_iff`).
-/
namespace Xiaoxin
open Getline Memory Numerals

namespace ServerConfig
open ConfigData

/-- What an assignment leaves in its field does not depend on what was there. -/
theorem assign_assign_get (k : Key) (value value' : List Char) (c : ConfigData) :
    (assign value (assign value' c k) k).get k = (assign value c k).get k := by
  have harrays {address elements : ℕ} (h : array k = some (address, elements)) :
      read (store (store c.memory (wideStores k value')) (wideStores k value)) address elements =
        read (store c.memory (wideStores k value)) address elements := by
    refine read_congr fun a hle hlt => ?_
    rw [store_wideStores h _ value, store_wideStores h c.memory value]
    obtain ⟨i, rfl⟩ := Nat.exists_eq_add_of_le hle
    have hlen : i < (value.map toWide ++ [0] ++
        List.replicate (elements - (value.length + 1)) 0).length := by
      rw [length_wideCells]
      omega
    rw [write_add _ _ hlen, write_add _ _ hlen]
  cases k
  case dbName | dbAccount | dbPwd => exact congrArg Value.wide (harrays rfl)
  case dbReceiveBuffer | dbWorkThread =>
    exact congrArg (fun w : BitVec 32 => Value.number w.toNat)
      ((word_storeWord _ _ _).trans (word_storeWord _ _ _).symm)
  all_goals rfl

/-- Every assignment changes its own field in some configuration. -/
theorem exists_assign_changes (k : Key) (value : List Char) :
    ∃ c, (assign value c k).get k ≠ c.get k := by
  by_contra hall
  push Not at hall
  have hsame (value' : List Char) (hvalid : k.Valid (2 ^ 31) value') :
      k.meaning value' = (default : ConfigData).get k := by
    calc k.meaning value'
      _ = (assign value' default k).get k := (assign_get_self hvalid _).symm
      _ = (assign value (assign value' default k) k).get k := (hall _).symm
      _ = (assign value default k).get k := assign_assign_get k value value' default
      _ = (default : ConfigData).get k := hall _
  obtain ⟨hvalid, hvalid', hne⟩ := k.valid_one_two
  exact hne ((hsame ['1'] hvalid).trans (hsame ['2'] hvalid').symm)

/-- The field behind the array of a key. -/
def Key.next : Key → Key
  | .dbName => .dbAccount
  | .dbAccount => .dbPwd
  | _ => .dbReceiveBuffer

/-- A field that is kept in memory tells its first cell. -/
theorem get_ne {c c' : ConfigData} {k : Key} (hcells : k.cells.2 ≠ 0)
    (h : c.memory k.cells.1 ≠ c'.memory k.cells.1) : c.get k ≠ c'.get k := by
  intro hget
  apply h
  cases k
  case dbName | dbAccount | dbPwd =>
    exact eq_of_read_eq (Value.wide.inj hget) (Nat.le_refl _) (by decide)
  case dbReceiveBuffer | dbWorkThread =>
    have hword := BitVec.eq_of_toNat_eq (Value.number.inj hget)
    have hlow := congrArg (BitVec.setWidth 16) hword
    simpa only [Key.cells, databaseReceiveBufferSize, databaseWorkThreadCount, word,
      BitVec.setWidth_append_eq_right] using hlow
  all_goals exact absurd rfl hcells

/-- A database string that does not fit changes the next field in some configuration. -/
theorem exists_assign_overflow {k : Key} {value : List Char} (h : ¬ k.fits value) :
    k.next ≠ k ∧ ∃ c, (assign value c k).get k.next ≠ c.get k.next := by
  rw [Key.fits, Classical.not_imp, not_lt] at h
  obtain ⟨⟨address, elements⟩, harray⟩ := Option.isSome_iff_exists.mp h.1
  have hnext : k.next ≠ k ∧ k.next.cells.2 ≠ 0 ∧ k.next.cells.1 = address + k.room := by
    cases k
    case dbName | dbAccount | dbPwd =>
      obtain ⟨rfl, -⟩ : _ = address ∧ _ = elements := Prod.mk.injEq .. ▸ Option.some.inj harray
      decide
    all_goals exact absurd harray nofun
  have hlen : k.room < (value.map toWide ++ [0] ++
      List.replicate (elements - (value.length + 1)) 0).length := by
    rw [length_wideCells]
    omega
  refine ⟨hnext.1, { (default : ConfigData) with memory := fun _ => (value.map toWide ++ [0] ++
    List.replicate (elements - (value.length + 1)) 0)[k.room] + 1 }, get_ne hnext.2.1 ?_⟩
  rw [assign_array harray, hnext.2.2]
  dsimp only
  rw [store_wideStores harray, write_add _ _ hlen]
  simp

/-! ## One more line -/

/-- What a line does in some configuration it does at the end of some file. -/
theorem exists_file {line : List Char} (hline : '\n' ∉ line) (hlen : line.length < bufferSize) :
    ∃ text₀ text, lines '\n' text = lines '\n' text₀ ++ [line] ∧
      ∀ c, (readConfigScript (some text₀) c).2 = c ∧
        (readConfigScript (some text) c).2 = applyLine c line := by
  obtain ⟨text, htext⟩ := exists_lines_append '\n' [] hline
  have hempty (c : ConfigData) : (readConfigScript (some []) c).2 = c := by
    rw [readConfigScript_eq, getlines_eq (by decide)]
    rfl
  refine ⟨[], text, htext, fun c => ⟨hempty c, ?_⟩⟩
  rw [readConfigScript_append c htext, hempty, if_pos]
  rw [htext]
  simpa [lines] using hlen

theorem applyLine_of_select {line : List Char} {k : Key} (h : select (filtered line) = some k)
    (c : ConfigData) : applyLine c line = assign (valueText (filtered line)) c k := by
  rw [applyLine, h]

/-- A line changes no field but that of the key the chain takes, if the value fits. -/
theorem applyLine_get_of_ne {line : List Char}
    (hfits : ∀ k, select (filtered line) = some k → k.fits (valueText (filtered line)))
    {c : ConfigData} {k : Key} (h : (applyLine c line).get k ≠ c.get k) :
    select (filtered line) = some k := by
  cases hselect : select (filtered line) with
  | none =>
    rw [applyLine, hselect] at h
    exact absurd rfl h
  | some k' =>
    rw [applyLine_of_select hselect] at h
    by_contra hne
    exact h (assign_get_of_ne (hfits k' hselect) (fun hk => hne (hk ▸ rfl)) c)

/-- A line of any file changes only the field whose key is the text before the first
colon, if and only if it is too long to be read, or the first key of the chain that
occurs in it, if there is one, is that text and the value stays in front of the next
field. -/
theorem only_key_selects_iff (line : List Char) (hline : '\n' ∉ line) :
    (∀ text₀ text c k, lines '\n' text = lines '\n' text₀ ++ [line] →
      (readConfigScript (some text) c).2.get k ≠ (readConfigScript (some text₀) c).2.get k →
      keyText (filtered line) = some k.text) ↔
    bufferSize ≤ line.length ∨
      ∀ k, select (filtered line) = some k →
        keyText (filtered line) = some k.text ∧ k.fits (valueText (filtered line)) := by
  constructor
  · intro h
    refine or_iff_not_imp_left.mpr fun hlen k hselect => ?_
    obtain ⟨text₀, text, htext, hread⟩ := exists_file hline (not_le.mp hlen)
    have hchange (k' : Key) (c : ConfigData)
        (hc : (assign (valueText (filtered line)) c k).get k' ≠ c.get k') :
        keyText (filtered line) = some k'.text := by
      refine h text₀ text c k' htext ?_
      rwa [(hread c).1, (hread c).2, applyLine_of_select hselect]
    obtain ⟨c, hc⟩ := exists_assign_changes k (valueText (filtered line))
    have hkey := hchange k c hc
    refine ⟨hkey, ?_⟩
    by_contra hfits
    obtain ⟨hnext, c, hc⟩ := exists_assign_overflow hfits
    exact hnext (Key.text_injective (Option.some.inj ((hchange k.next c hc).symm.trans hkey)))
  · intro h text₀ text c k htext hne
    rw [readConfigScript_append c htext] at hne
    split at hne
    · next hall =>
      have hlen : line.length < bufferSize := hall line (htext ▸ by simp)
      have hkeys := h.resolve_left (not_le.mpr hlen)
      exact (hkeys k (applyLine_get_of_ne (fun k hk => (hkeys k hk).2) hne)).1
    · exact absurd rfl hne

theorem only_key_selects_port :
    '\n' ∉ "_port1:8001".toList ∧
    ∀ text₀ text c k, lines '\n' text = lines '\n' text₀ ++ ["_port1:8001".toList] →
      (readConfigScript (some text) c).2.get k ≠ (readConfigScript (some text₀) c).2.get k →
      keyText (filtered "_port1:8001".toList) = some k.text := by
  have hline : '\n' ∉ "_port1:8001".toList := by decide +kernel
  refine ⟨hline, (only_key_selects_iff "_port1:8001".toList hline).mpr (.inr ?_)⟩
  decide +kernel

/-- The value of `_database_name` is taken for an assignment to `_port1`. -/
theorem value_selects_port :
    ¬ ∀ (line : List Char) text₀ text c (k : Key),
      lines '\n' text = lines '\n' text₀ ++ [line] →
      (readConfigScript (some text) c).2.get k ≠ (readConfigScript (some text₀) c).2.get k →
      keyText (filtered line) = some k.text := by
  intro h
  obtain ⟨text₀, text, htext, hread⟩ :=
    @exists_file "_database_name:x_port15".toList (by decide +kernel) (by decide +kernel)
  have hkey := h _ text₀ text { (default : ConfigData) with port1 := 1 } .port1 htext (by
    rw [(hread _).1, (hread _).2]
    decide +kernel)
  exact absurd hkey (by decide +kernel)

/-! ## Database strings -/

/-- The wide characters that are stored through `CharConvertToWchar` for a line. -/
def lineStores (line : List Char) : List (ℕ × List (BitVec 16)) :=
  match select (filtered line) with
  | some k => wideStores k (valueText (filtered line))
  | none => []

theorem mem_lineStores {line : List Char} {k : Key} {address elements : ℕ}
    (harray : array k = some (address, elements)) (h : select (filtered line) = some k)
    (s : ℕ × List (BitVec 16)) :
    s ∈ lineStores line ↔
      s = (address, List.replicate elements 0) ∨
        s = (address, (valueText (filtered line)).map toWide ++ [0]) := by
  have hbytes : 2 * elements / 2 = elements := by omega
  simp [lineStores, h, wideStores, harray, charConvertToWchar, hbytes]

/-- A line with a key of a database string before the first colon, or for which the chain
takes such a key: what is stored lies within the array and no other field changes, if and
only if the chain takes this key and the value is shorter than the array. -/
theorem database_string_iff (line : List Char) (k : Key) (address elements : ℕ)
    (hline : '\n' ∉ line) (hlen : line.length < bufferSize)
    (harray : array k = some (address, elements))
    (hk : keyText (filtered line) = some k.text ∨ select (filtered line) = some k) :
    ((∀ s ∈ lineStores line, address ≤ s.1 ∧ s.1 + s.2.length ≤ address + elements) ∧
      ∀ text₀ text c k', lines '\n' text = lines '\n' text₀ ++ [line] → k' ≠ k →
        (readConfigScript (some text) c).2.get k' = (readConfigScript (some text₀) c).2.get k') ↔
    select (filtered line) = some k ∧ (valueText (filtered line)).length < elements := by
  constructor
  · rintro ⟨hstores, hframe⟩
    have hfound : k.text <:+: filtered line := by
      rcases hk with hk | hk
      · obtain ⟨v, hv, -⟩ := eq_of_keyText hk
        exact hv ▸ (List.prefix_append k.text (':' :: v)).isInfix
      · exact occurs_of_select hk
    obtain ⟨k', hselect⟩ := exists_select hfound
    have hkk' : k' = k := by
      by_contra hne
      obtain ⟨c, hc⟩ := exists_assign_changes k' (valueText (filtered line))
      obtain ⟨text₀, text, htext, hread⟩ := exists_file hline hlen
      have hsame := hframe text₀ text c k' htext hne
      rw [(hread c).1, (hread c).2, applyLine_of_select hselect] at hsame
      exact hc hsame
    rw [hkk'] at hselect
    refine ⟨hselect, ?_⟩
    have hlast := (hstores _ ((mem_lineStores harray hselect _).mpr (.inr rfl))).2
    simp only [List.length_append, List.length_map, List.length_singleton] at hlast
    omega
  · rintro ⟨hselect, hvalue⟩
    constructor
    · intro s hs
      rcases (mem_lineStores harray hselect s).mp hs with rfl | rfl
      · simp
      · simp only [List.length_append, List.length_map, List.length_singleton, Nat.le_refl,
          true_and]
        omega
    · intro text₀ text c k' htext hne
      have hfits (k₁ : Key) (h₁ : select (filtered line) = some k₁) :
          k₁.fits (valueText (filtered line)) := by
        obtain rfl : k = k₁ := Option.some.inj (hselect.symm.trans h₁)
        intro _
        exact hvalue.trans_le (array_cells harray).2.1
      rw [readConfigScript_append c htext]
      split
      · by_contra hchange
        have hk' := applyLine_get_of_ne hfits hchange
        exact hne (Option.some.inj (hk'.symm.trans hselect))
      · rfl

/-- A line with a key and a value that is plain says what it is written for. -/
theorem line_reads (k : Key) {value : List Char} (h : ∀ a ∈ value, plain a = true) :
    keyText (filtered (k.text ++ ':' :: value)) = some k.text ∧
      select (filtered (k.text ++ ':' :: value)) = some k ∧
      valueText (filtered (k.text ++ ':' :: value)) = value := by
  rw [filtered_line k h]
  exact ⟨keyText_line k.colon_not_mem_text, select_line k (not_mem_of_plain h),
    valueText_line k.colon_not_mem_text⟩

theorem database_string_short :
    (∀ s ∈ lineStores "_database_account_pwd:123456".toList, 100 ≤ s.1 ∧
      s.1 + s.2.length ≤ 100 + 20) ∧
    ∀ text₀ text c k',
      lines '\n' text = lines '\n' text₀ ++ ["_database_account_pwd:123456".toList] →
      k' ≠ Key.dbPwd →
      (readConfigScript (some text) c).2.get k' = (readConfigScript (some text₀) c).2.get k' := by
  have hplain : ∀ a ∈ "123456".toList, plain a = true :=
    List.all_eq_true.mp (by decide +kernel)
  have hline : "_database_account_pwd:123456".toList =
      Key.dbPwd.text ++ ':' :: "123456".toList := by decide +kernel
  obtain ⟨hkey, hselect, hvalue⟩ := line_reads .dbPwd hplain
  rw [hline]
  refine (database_string_iff _ .dbPwd 100 20 (line_clean .dbPwd hplain).2 (by decide +kernel) rfl
    (.inl hkey)).mpr ⟨hselect, ?_⟩
  rw [hvalue]
  decide +kernel

/-- A database name of 50 characters is stored with its terminator, which is the first wide
character of the account name. -/
theorem database_name_overflows :
    ¬ ∀ (line : List Char) (k : Key) (address elements : ℕ), '\n' ∉ line →
      line.length < bufferSize → array k = some (address, elements) →
      keyText (filtered line) = some k.text →
      (∀ s ∈ lineStores line, address ≤ s.1 ∧ s.1 + s.2.length ≤ address + elements) ∧
        ∀ text₀ text c k', lines '\n' text = lines '\n' text₀ ++ [line] → k' ≠ k →
          (readConfigScript (some text) c).2.get k' =
            (readConfigScript (some text₀) c).2.get k' := by
  intro h
  have hplain : ∀ a ∈ List.replicate 50 'x', plain a = true := by
    intro a ha
    rw [List.eq_of_mem_replicate ha]
    decide
  obtain ⟨hkey, hselect, hvalue⟩ := line_reads .dbName hplain
  have hstores := (h (Key.dbName.text ++ ':' :: List.replicate 50 'x') .dbName 0 50
    (line_clean .dbName hplain).2 (by decide +kernel) rfl hkey).1
  have hlast := (hstores _ ((mem_lineStores rfl hselect _).mpr (.inr rfl))).2
  rw [hvalue] at hlast
  simp at hlast

end ServerConfig

end Xiaoxin
