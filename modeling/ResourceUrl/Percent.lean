import ResourceUrl.Text.Hex
import ResourceUrl.Utf8

/-!
# Percent escapes

`encode` writes every character that is neither unreserved nor declared safe as the escapes of its
octets; `decode` reads escapes of either case, keeps a percent sign that begins none, and reads the
octets of the whole text as UTF-8. Whatever is declared safe, short of the percent sign, a text that
was encoded is decoded as it was (`decode_encode`).
-/

namespace ResourceUrl.Percent

/-- Letters, digits and the four marks that are never escaped. -/
def isUnreserved (c : Char) : Bool :=
  c.isAlphanum || c == '_' || c == '.' || c == '-' || c == '~'

/-- The escape of one octet. -/
def escape (octet : Nat) : List Char :=
  ['%', Text.Hex.upper (octet / 16), Text.Hex.upper (octet % 16)]

/-- A character as it stands in an escaped text. -/
def encodeChar (safe : List Char) (c : Char) : List Char :=
  if isUnreserved c || safe.contains c then [c] else (Utf8.encodeChar c).flatMap escape

/-- Escapes a text, keeping the characters of `safe`. -/
def encode (safe text : List Char) : List Char :=
  text.flatMap (encodeChar safe)

/-- The octets of an escaped text: one for an escape, and those of the character for any other. -/
def octets : List Char → List Nat
  | [] => []
  | '%' :: high :: low :: rest =>
    match Text.Hex.value? high, Text.Hex.value? low with
    | some h, some l => (16 * h + l) :: octets rest
    | _, _ => Utf8.encodeChar '%' ++ octets (high :: low :: rest)
  | c :: rest => Utf8.encodeChar c ++ octets rest

def decode (text : List Char) : List Char :=
  Utf8.decode (octets text)

/-! ## Lemmas -/

theorem octets_cons_of_ne {c : Char} (h : c ≠ '%') (rest : List Char) :
    octets (c :: rest) = Utf8.encodeChar c ++ octets rest := by
  rw [octets]
  rintro high low _ rfl
  exact absurd rfl h

theorem octets_escape {octet : Nat} (h : octet < 256) (rest : List Char) :
    octets (escape octet ++ rest) = octet :: octets rest := by
  have high : Text.Hex.value? (Text.Hex.upper (octet / 16)) = _ := Text.Hex.value?_upper (by omega)
  have low : Text.Hex.value? (Text.Hex.upper (octet % 16)) = _ := Text.Hex.value?_upper (by omega)
  simp only [escape, List.cons_append, List.nil_append, octets, high, low]
  rw [show 16 * (octet / 16) + octet % 16 = octet by omega]

theorem octets_flatMap_escape {list : List Nat} (h : ∀ octet ∈ list, octet < 256)
    (rest : List Char) : octets (list.flatMap escape ++ rest) = list ++ octets rest := by
  induction list with
  | nil => rfl
  | cons octet others ih =>
    rw [List.flatMap_cons, List.append_assoc, octets_escape (h octet List.mem_cons_self),
      ih fun o ho => h o (List.mem_cons_of_mem _ ho), List.cons_append]

theorem octets_encodeChar {safe : List Char} (h : '%' ∉ safe) (c : Char) (rest : List Char) :
    octets (encodeChar safe c ++ rest) = Utf8.encodeChar c ++ octets rest := by
  unfold encodeChar
  split
  · rename_i kept
    have hc : c ≠ '%' := by
      rintro rfl
      simp [isUnreserved, h] at kept
    exact octets_cons_of_ne hc rest
  · exact octets_flatMap_escape (fun _ => Utf8.lt_of_mem_encodeChar) rest

theorem decode_encode {safe : List Char} (h : '%' ∉ safe) (text : List Char) :
    decode (encode safe text) = text := by
  have octets_encode : octets (encode safe text) = Utf8.encode text := by
    unfold encode Utf8.encode
    induction text with
    | nil => rfl
    | cons c rest ih => rw [List.flatMap_cons, octets_encodeChar h, ih, List.flatMap_cons]
  rw [decode, octets_encode, Utf8.decode_encode]

/-- A reserved character that is not declared safe stands in no encoded text, short of the percent
sign. -/
theorem not_mem_encode {safe text : List Char} {c : Char} (reserved : isUnreserved c = false)
    (unsafeChar : c ∉ safe) (notSign : c ≠ '%') : c ∉ encode safe text := by
  intro h
  obtain ⟨d, -, h⟩ := List.mem_flatMap.mp h
  unfold encodeChar at h
  split at h
  · rename_i kept
    rw [List.mem_singleton.mp h] at reserved unsafeChar
    simp [reserved, unsafeChar] at kept
  · obtain ⟨octet, ho, h⟩ := List.mem_flatMap.mp h
    have bound := Utf8.lt_of_mem_encodeChar ho
    have digit {n : Nat} (hn : n < 16) : c ≠ Text.Hex.upper n := by
      rintro rfl
      simp [isUnreserved, Text.Hex.isAlphanum_upper hn] at reserved
    simp only [escape, List.mem_cons, List.not_mem_nil, or_false] at h
    rcases h with h | h | h
    · exact notSign h
    · exact digit (by omega) h
    · exact digit (by omega) h

end ResourceUrl.Percent
