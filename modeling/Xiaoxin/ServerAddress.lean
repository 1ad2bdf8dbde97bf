import Xiaoxin.ConfigChanges
import Xiaoxin.AcceptorConnectorBase

/-!
# The address of a server

An address goes from the configuration script through a `std::string` into `_ip`, an
array of `IP_V4_LEN_END_SYMBOL` characters. That macro is `IP_V4_LEN + 1`, room for the
longest address and its terminator; but `strcpy_s` is told that there are `IP_V4_LEN`.

The constructor also hands the string to `boost::asio::ip::address_v4::from_string`,
which is a parameter here.
-/
namespace Xiaoxin
open Getline ServerConfig

def ipV4Len : ℕ := 15

/-- `IP_V4_LEN_END_SYMBOL`. -/
def ipV4LenEndSymbol : ℕ := ipV4Len + 1

/-- `strcpy_s` with the size that it is given; `none` stands for its failure. -/
def strcpyS (dst : List Char) (size : ℕ) (src : List Char) : Option (List Char) :=
  if src.length + 1 ≤ size then some (src ++ '\x00' :: dst.drop (src.length + 1)) else none

namespace AcceptorConnectorBase

/-- What the constructor makes of its arguments. -/
structure Address (ε : Type) where
  ip : List Char
  port : ℕ
  endpoint : ε × ℕ

/-- The constructor. There is no object if the assertion fails, `strcpy_s` fails or
`from_string` throws. -/
def construct {ε : Type} (fromString : List Char → Option ε) (ip : Option (List Char)) (port : ℕ) :
    Option (Address ε) := do
  let ip ← ip
  if port > 1000 then
    let buffer := List.replicate ipV4LenEndSymbol '\x00'
    let buffer ← strcpyS buffer ipV4Len ip
    let address ← fromString ip
    some ⟨buffer.set ipV4Len '\x00', port, (address, port)⟩
  else none

end AcceptorConnectorBase

/-! ## Addresses -/

/-- A number from 0 to 255 in decimal. -/
def octet (n : UInt8) : List Char := Nat.toDigits 10 n.toNat

structure AddressV4 where
  a : UInt8
  b : UInt8
  c : UInt8
  d : UInt8
  deriving DecidableEq, Repr

/-- The address in dotted decimal. -/
def AddressV4.text (x : AddressV4) : List Char :=
  octet x.a ++ '.' :: (octet x.b ++ '.' :: (octet x.c ++ '.' :: octet x.d))

theorem octet_length_pos (n : UInt8) : 0 < (octet n).length := Nat.length_toDigits_pos

theorem octet_length_le (n : UInt8) : (octet n).length ≤ 3 := by
  have hlt := n.toNat_lt
  exact (Nat.length_toDigits_le_iff (by decide) (by decide)).mpr (by omega)

theorem octet_length_le_two (n : UInt8) : (octet n).length ≤ 2 ↔ n.toNat < 100 :=
  Nat.length_toDigits_le_iff (by decide) (by decide)

theorem octet_plain (n : UInt8) : ∀ a ∈ octet n, plain a = true := by
  intro a ha
  have hdigit := Nat.isDigit_of_mem_toDigits (by decide) (by decide) ha
  simp only [Char.isDigit, ge_iff_le, Bool.and_eq_true, decide_eq_true_eq] at hdigit
  have hlow : '0' ≤ a := hdigit.1
  have hhigh : a ≤ '9' := hdigit.2
  have hcolon : a ≠ ':' := by
    rintro rfl
    exact absurd hhigh (by decide)
  have hunderscore : a ≠ '_' := by
    rintro rfl
    exact absurd hhigh (by decide)
  simp [plain, kept, hlow, hhigh, hcolon, hunderscore]

namespace AddressV4

variable (x : AddressV4)

theorem text_length : x.text.length =
    (octet x.a).length + (octet x.b).length + (octet x.c).length + (octet x.d).length + 3 := by
  simp only [text, List.length_append, List.length_cons]
  omega

/-- An address has seven to fifteen characters. -/
theorem text_length_range : 7 ≤ x.text.length ∧ x.text.length ≤ ipV4Len := by
  have h : ipV4Len = 15 := rfl
  have := octet_length_pos x.a
  have := octet_length_pos x.b
  have := octet_length_pos x.c
  have := octet_length_pos x.d
  have := octet_length_le x.a
  have := octet_length_le x.b
  have := octet_length_le x.c
  have := octet_length_le x.d
  rw [x.text_length]
  omega

/-- Some number of the address is below 100. -/
def Short : Prop := x.a.toNat < 100 ∨ x.b.toNat < 100 ∨ x.c.toNat < 100 ∨ x.d.toNat < 100

instance : Decidable x.Short := by
  unfold Short
  infer_instance

theorem short_iff : x.Short ↔ x.text.length < ipV4Len := by
  have h : ipV4Len = 15 := rfl
  have := octet_length_le x.a
  have := octet_length_le x.b
  have := octet_length_le x.c
  have := octet_length_le x.d
  rw [Short, x.text_length, ← octet_length_le_two, ← octet_length_le_two, ← octet_length_le_two,
    ← octet_length_le_two]
  omega

theorem text_plain : ∀ a ∈ x.text, plain a = true := by
  intro a ha
  have hdot : plain '.' = true := by decide
  simp only [text, List.mem_append, List.mem_cons] at ha
  rcases ha with ha | rfl | ha | rfl | ha | rfl | ha
  · exact octet_plain x.a a ha
  · exact hdot
  · exact octet_plain x.b a ha
  · exact hdot
  · exact octet_plain x.c a ha
  · exact hdot
  · exact octet_plain x.d a ha

end AddressV4

/-! ## The line in the script -/

/-- Quotes and blanks. -/
def ornament (a : Char) : Bool :=
  a = '\x22' || a = '\x27' || a = ' ' || a = '\t' || a = '\r'

/-- A line that assigns the value to the key, with quotes and blanks anywhere and perhaps a
comment behind two dashes. -/
def Writes (k : Key) (value line : List Char) : Prop :=
  ∃ body comment, line = body ++ comment ∧
    body.filter (fun a => !ornament a) = k.text ++ ':' :: value ∧
    (comment = [] ∨ ∃ rest, comment = '-' :: '-' :: rest)

section Line

variable {k : Key} {value line body comment : List Char}

/-- The characters in front of the comment are ornaments or copied. -/
theorem body_chars (hvalue : ∀ a ∈ value, plain a = true)
    (hbody : body.filter (fun a => !ornament a) = k.text ++ ':' :: value) :
    ∀ a ∈ body, a ≠ '-' ∧ a ≠ '\x00' ∧ kept a = !ornament a := by
  intro a ha
  cases ho : ornament a with
  | true =>
    simp only [ornament, Bool.or_eq_true, decide_eq_true_eq] at ho
    rcases ho with (((rfl | rfl) | rfl) | rfl) | rfl <;> decide
  | false =>
    have hmem : a ∈ body.filter (fun a => !ornament a) := List.mem_filter.mpr ⟨ha, by simp [ho]⟩
    rw [hbody, List.mem_append, List.mem_cons] at hmem
    rcases hmem with hmem | rfl | hmem
    · obtain ⟨hkept, hdash, -⟩ := k.forall_mem_text a hmem
      exact ⟨hdash, kept_ne_nul hkept, hkept⟩
    · decide
    · have hkept : kept a = true := by
        have hplain := hvalue a hmem
        simp only [plain, Bool.and_eq_true] at hplain
        exact hplain.1.1
      refine ⟨?_, kept_ne_nul hkept, hkept⟩
      rintro rfl
      exact absurd hkept (by decide)

/-- The loop that copies the line leaves the key, the colon and the value. -/
theorem Writes.filtered (hvalue : ∀ a ∈ value, plain a = true) (h : Writes k value line) :
    ServerConfig.filtered line = k.text ++ ':' :: value := by
  obtain ⟨body, comment, rfl, hbody, hcomment⟩ := h
  have hchars := body_chars hvalue hbody
  have hnul : ∀ a ∈ body, decide (a ≠ '\x00') = true := fun a ha =>
    decide_eq_true (hchars a ha).2.1
  have hdash : ∀ a ∈ body, decide (a ≠ '-') = true := fun a ha => decide_eq_true (hchars a ha).1
  have hcut : ((body ++ cstr comment).takeWhile (· ≠ '-')) = body := by
    rw [List.takeWhile_append_of_pos hdash]
    rcases hcomment with rfl | ⟨rest, rfl⟩
    · simp [cstr]
    · simp [cstr]
  rw [ServerConfig.filtered, cstr, List.takeWhile_append_of_pos hnul, keep]
  rw [cstr] at hcut
  rw [hcut, ← hbody]
  exact List.filter_congr fun a ha => (hchars a ha).2.2

/-- The line assigns the value to the key. -/
theorem Writes.applyLine (hvalue : ∀ a ∈ value, plain a = true) (h : Writes k value line)
    (c : ConfigData) : ServerConfig.applyLine c line = assign value c k := by
  have hfiltered := h.filtered hvalue
  have hselect : select (ServerConfig.filtered line) = some k := by
    rw [hfiltered]
    exact select_line k (not_mem_of_plain hvalue)
  rw [applyLine_of_select hselect, hfiltered, valueText_line k.colon_not_mem_text]

end Line

/-! ## The address in the configuration and in the object -/

section File

variable {k : Key} (hk : k = .severIp1 ∨ k = .severIp2)
include hk

/-- The two addresses are strings of their own, which no other assignment reaches. -/
theorem assign_get_address {k' : Key} (hne : k' ≠ k) (value : List Char) (c : ConfigData) :
    (assign value c k').get k = c.get k := by
  rcases hk with rfl | rfl
  · cases k' <;> first | rfl | exact absurd rfl hne
  · cases k' <;> first | rfl | exact absurd rfl hne

theorem assign_get_address_self (value : List Char) (c : ConfigData) :
    (assign value c k).get k = .address value := by
  rcases hk with rfl | rfl <;> rfl

theorem foldl_applyLine_get_address {ls : List (List Char)}
    (h : ∀ l ∈ ls, select (filtered l) ≠ some k) (c : ConfigData) :
    (ls.foldl applyLine c).get k = c.get k := by
  induction ls generalizing c with
  | nil => rfl
  | cons l ls ih =>
    rw [List.foldl_cons, ih fun l' hl' => h l' (List.mem_cons_of_mem l hl')]
    have hl := h l (List.mem_cons_self ..)
    rw [applyLine]
    cases hselect : select (filtered l) with
    | none => rfl
    | some k' => exact assign_get_address hk (fun hkk => hl (by rw [hselect, hkk])) _ c

/-- What `ReadConfigScript` stores under a key that one line assigns to: the value, if
no line up to that one is too long, and nothing otherwise. -/
theorem readConfigScript_address {text line value : List Char} {before after : List (List Char)}
    (hlines : lines '\n' text = before ++ line :: after) (hvalue : ∀ a ∈ value, plain a = true)
    (hline : Writes k value line) (hother : ∀ l ∈ before ++ after, select (filtered l) ≠ some k)
    (c : ConfigData) :
    (readConfigScript (some text) c).2.get k =
      if ∀ l ∈ before ++ [line], l.length < bufferSize then .address value else c.get k := by
  have hbefore : ∀ l ∈ before, select (filtered l) ≠ some k := fun l hl =>
    hother l (List.mem_append_left _ hl)
  have hafter : ∀ l ∈ after.takeWhile (fun l => decide (l.length < bufferSize)),
      select (filtered l) ≠ some k := fun l hl =>
    hother l (List.mem_append_right _ ((List.takeWhile_prefix _).subset hl))
  rw [readConfigScript_eq, getlines_eq (by decide), hlines]
  split_ifs with hshort
  · have hall : ∀ l ∈ before, decide (l.length < bufferSize) = true := fun l hl =>
      decide_eq_true (hshort l (List.mem_append_left _ hl))
    have hlen : line.length < bufferSize := hshort line (by simp)
    have htake : (line :: after).takeWhile (fun l => decide (l.length < bufferSize)) =
        line :: after.takeWhile (fun l => decide (l.length < bufferSize)) :=
      List.takeWhile_cons_of_pos (decide_eq_true hlen)
    rw [List.takeWhile_append_of_pos hall, htake, List.foldl_append, List.foldl_cons,
      foldl_applyLine_get_address hk hafter, hline.applyLine hvalue, assign_get_address_self hk]
  · -- the loop ends before it comes to the line
    refine foldl_applyLine_get_address hk (fun l hl => hbefore l ?_) c
    rw [List.takeWhile_append] at hl
    split_ifs at hl with hlen
    · have hall := List.takeWhile_eq_self_iff.mp
        ((List.takeWhile_prefix (fun l : List Char => decide (l.length < bufferSize))).eq_of_length
          hlen)
      have hline' : ¬ line.length < bufferSize := by
        intro hfits
        refine hshort fun l hl => ?_
        rcases List.mem_append.mp hl with hl | hl
        · exact of_decide_eq_true (hall l hl)
        · rwa [List.mem_singleton.mp hl]
      rw [List.takeWhile_cons_of_neg (by simpa using hline'), List.append_nil] at hl
      exact hl
    · exact (List.takeWhile_prefix _).subset hl

end File

/-- The string that is stored is the address, and an object can be constructed from it
that keeps the address in `_ip`, whatever was configured before. -/
def Configurable {ε : Type} (fromString : List Char → Option ε) (k : Key) (x : AddressV4)
    (text : List Char) (port : ℕ) : Prop :=
  ∀ c, ∃ value, (readConfigScript (some text) c).2.get k = .address value ∧ value = x.text ∧
    ∃ b, AcceptorConnectorBase.construct fromString (some value) port = some b ∧
      cstr b.ip = x.text

theorem construct_eq_none {ε : Type} (fromString : List Char → Option ε) {x : AddressV4}
    (h : ¬ x.Short) (port : ℕ) :
    AcceptorConnectorBase.construct fromString (some x.text) port = none := by
  have hlong : ¬ x.text.length + 1 ≤ ipV4Len := by
    have := x.short_iff.not.mp h
    omega
  simp only [AcceptorConnectorBase.construct, strcpyS, if_neg hlong, Option.bind_eq_bind,
    Option.bind_some, Option.bind_none, ite_self]

/-- The terminator that the constructor adds comes behind the one that `strcpy_s` wrote. -/
theorem cstr_set (dst : List Char) {src : List Char} (hlen : src.length < ipV4Len)
    (hsrc : ∀ a ∈ src, a ≠ '\x00') :
    cstr ((src ++ '\x00' :: dst.drop (src.length + 1)).set ipV4Len '\x00') = src := by
  obtain ⟨j, hj⟩ : ∃ j, ipV4Len - src.length = j + 1 := ⟨ipV4Len - src.length - 1, by omega⟩
  rw [List.set_append_right _ _ (by omega), hj, List.set_cons_succ, cstr_append_nul,
    cstr_of_forall hsrc]

theorem construct_of_short {ε : Type} {fromString : List Char → Option ε} {x : AddressV4}
    (hfrom : (fromString x.text).isSome) (h : x.Short) {port : ℕ} (hport : 1000 < port) :
    ∃ b, AcceptorConnectorBase.construct fromString (some x.text) port = some b ∧
      cstr b.ip = x.text := by
  have hlen : x.text.length + 1 ≤ ipV4Len := by
    have := x.short_iff.mp h
    omega
  have hnul : ∀ a ∈ x.text, a ≠ '\x00' := by
    rintro a ha rfl
    exact absurd (x.text_plain _ ha) (by decide)
  obtain ⟨e, he⟩ := Option.isSome_iff_exists.mp hfrom
  have hip := cstr_set (List.replicate ipV4LenEndSymbol '\x00') (Nat.lt_of_succ_le hlen) hnul
  refine ⟨⟨_, port, (e, port)⟩, ?_, hip⟩
  simp only [AcceptorConnectorBase.construct, strcpyS, if_pos hlen, if_pos hport, he,
    Option.bind_eq_bind, Option.bind_some, gt_iff_lt]

/-- An address in the script reaches `_ip` exactly when it has fewer than fifteen
characters, that is when one of its numbers is below 100, and no line up to the one that
names it is too long to be read. -/
theorem configurable_iff {ε : Type} (fromString : List Char → Option ε) (x : AddressV4)
    (hfrom : (fromString x.text).isSome) (k : Key) (hk : k = .severIp1 ∨ k = .severIp2)
    (text line : List Char) (before after : List (List Char))
    (hlines : lines '\n' text = before ++ line :: after) (hline : Writes k x.text line)
    (hother : ∀ l ∈ before ++ after, select (filtered l) ≠ some k) (port : ℕ)
    (hport : 1000 < port) :
    Configurable fromString k x text port ↔
      x.Short ∧ ∀ l ∈ before ++ [line], l.length < bufferSize := by
  have hread := readConfigScript_address hk hlines x.text_plain hline hother
  constructor
  · intro h
    refine ⟨?_, ?_⟩
    · by_contra hshort
      obtain ⟨value, -, rfl, b, hb, -⟩ := h default
      rw [construct_eq_none fromString hshort] at hb
      cases hb
    · by_contra hlong
      obtain ⟨value, hget, rfl, -⟩ := h (assign [] default k)
      rw [hread, if_neg hlong, assign_get_address_self hk] at hget
      have hempty := congrArg List.length (Value.address.inj hget)
      have := x.text_length_range
      rw [List.length_nil] at hempty
      omega
  · rintro ⟨hshort, hlens⟩ c
    exact ⟨x.text, by rw [hread, if_pos hlens], rfl, construct_of_short hfrom hshort hport⟩

theorem configurable_default :
    Configurable
      (fun ip => if ip = "192.168.1.78".toList then some (3232235854 : BitVec 32) else none)
      .severIp1 ⟨192, 168, 1, 78⟩ "_port1:8001\n_server_ip1: '192.168.1.78' -- ip".toList 8001 ↔
    AddressV4.Short ⟨192, 168, 1, 78⟩ ∧
      ∀ l ∈ ["_port1:8001".toList] ++ ["_server_ip1: '192.168.1.78' -- ip".toList],
        l.length < bufferSize := by
  refine configurable_iff _ ⟨192, 168, 1, 78⟩ (by decide +kernel) .severIp1 (.inl rfl) _ _ _ []
    (by decide +kernel) ⟨"_server_ip1: '192.168.1.78' ".toList, "-- ip".toList, by decide +kernel,
      by decide +kernel, .inr ⟨" ip".toList, by decide +kernel⟩⟩ ?_ 8001 (by decide)
  rw [List.append_nil, List.forall_mem_singleton]
  decide +kernel

/-- The script stores the longest addresses, and `strcpy_s` refuses them. -/
theorem long_address_refused :
    Writes .severIp1 (AddressV4.text ⟨192, 168, 100, 100⟩) "_server_ip1:192.168.100.100".toList ∧
    (readConfigScript (some "_server_ip1:192.168.100.100".toList) default).2.get .severIp1 =
      .address (AddressV4.text ⟨192, 168, 100, 100⟩) ∧
    ¬ Configurable (fun ip => if ip = "192.168.100.100".toList then some (3232261220 : BitVec 32)
      else none) .severIp1 ⟨192, 168, 100, 100⟩ "_server_ip1:192.168.100.100".toList 8001 := by
  refine ⟨⟨"_server_ip1:192.168.100.100".toList, [], by decide +kernel, by decide +kernel,
    .inl rfl⟩, by decide +kernel, fun h => ?_⟩
  obtain ⟨value, -, rfl, b, hb, -⟩ := h default
  rw [construct_eq_none _ (by decide +kernel)] at hb
  cases hb

end Xiaoxin
