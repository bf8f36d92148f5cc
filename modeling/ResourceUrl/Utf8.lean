/-!
# UTF-8

Characters as octets, and octets as characters. Octets are natural numbers below 256. `decode` never
fails: every maximal part of the input that cannot begin a character, or that breaks one off, becomes
one replacement character. It gives back every text that was encoded (`decode_encode`).
-/

namespace ResourceUrl.Utf8

def encodeChar (c : Char) : List Nat :=
  let n := c.toNat
  if n < 0x80 then [n]
  else if n < 0x800 then [0xC0 + n / 64, 0x80 + n % 64]
  else if n < 0x10000 then [0xE0 + n / 4096, 0x80 + n / 64 % 64, 0x80 + n % 64]
  else [0xF0 + n / 262144, 0x80 + n / 4096 % 64, 0x80 + n / 64 % 64, 0x80 + n % 64]

def encode (text : List Char) : List Nat :=
  text.flatMap encodeChar

/-- Stands for octets that are not UTF-8. -/
def replacement : Char :=
  '\uFFFD'

/-- A character that has begun: the bits read so far, how many octets are still owed, and the least
and the greatest value that the next one may have. -/
structure Pending where
  bits : Nat
  owed : Nat
  low : Nat
  high : Nat
deriving DecidableEq, Repr

/-- What an octet gives when no character has begun: the characters it completes and the one it
begins. The bounds on a second octet keep out overlong forms, surrogates and code points beyond the
last one. -/
def start (octet : Nat) : List Char × Option Pending :=
  if octet < 0x80 then ([Char.ofNat octet], none)
  else if octet < 0xC2 then ([replacement], none)
  else if octet < 0xE0 then ([], some ⟨octet - 0xC0, 1, 0x80, 0xBF⟩)
  else if octet < 0xF0 then
    ([], some ⟨octet - 0xE0, 2, if octet = 0xE0 then 0xA0 else 0x80,
      if octet = 0xED then 0x9F else 0xBF⟩)
  else if octet < 0xF5 then
    ([], some ⟨octet - 0xF0, 3, if octet = 0xF0 then 0x90 else 0x80,
      if octet = 0xF4 then 0x8F else 0xBF⟩)
  else ([replacement], none)

/-- One octet, with a character possibly begun. An octet that cannot continue it ends it as a
replacement and is then looked at afresh. -/
def step (pending : Option Pending) (octet : Nat) : List Char × Option Pending :=
  match pending with
  | none => start octet
  | some p =>
    if p.low ≤ octet ∧ octet ≤ p.high then
      let bits := p.bits * 64 + (octet - 0x80)
      if p.owed = 1 then ([Char.ofNat bits], none)
      else ([], some ⟨bits, p.owed - 1, 0x80, 0xBF⟩)
    else (replacement :: (start octet).1, (start octet).2)

/-- Decodes with a character possibly begun; the end of the input breaks it off. -/
def decodeFrom (pending : Option Pending) : List Nat → List Char
  | [] => if pending.isSome then [replacement] else []
  | octet :: rest => (step pending octet).1 ++ decodeFrom (step pending octet).2 rest

def decode (octets : List Nat) : List Char :=
  decodeFrom none octets

/-! ## Ill-formed input -/

example : decode [0xE2, 0x82] = [replacement] := by decide +kernel

example : decode [0xED, 0xA0, 0x80] = [replacement, replacement, replacement] := by decide +kernel

example : decode [0xF0, 0x80, 0x41] = [replacement, replacement, 'A'] := by decide +kernel

/-! ## Lemmas -/

theorem step_last {bits low high digit : Nat} (hl : low ≤ 0x80 + digit) (hh : 0x80 + digit ≤ high) :
    step (some ⟨bits, 1, low, high⟩) (0x80 + digit) = ([Char.ofNat (bits * 64 + digit)], none) := by
  simp [step, hl, hh]

theorem step_more {bits owed low high digit : Nat} (ho : owed ≠ 0) (hl : low ≤ 0x80 + digit)
    (hh : 0x80 + digit ≤ high) :
    step (some ⟨bits, owed + 1, low, high⟩) (0x80 + digit) =
      ([], some ⟨bits * 64 + digit, owed, 0x80, 0xBF⟩) := by
  simp [step, hl, hh, ho]

theorem start_two {k : Nat} (hl : 2 ≤ k) (hh : k < 32) :
    start (0xC0 + k) = ([], some ⟨k, 1, 0x80, 0xBF⟩) := by
  unfold start
  rw [if_neg (by omega), if_neg (by omega), if_pos (by omega), Nat.add_sub_cancel_left]

theorem start_three {k : Nat} (h : k < 16) :
    start (0xE0 + k) =
      ([], some ⟨k, 2, if k = 0 then 0xA0 else 0x80, if k = 13 then 0x9F else 0xBF⟩) := by
  unfold start
  rw [if_neg (by omega), if_neg (by omega), if_neg (by omega), if_pos (by omega),
    Nat.add_sub_cancel_left]
  simp only [Nat.add_eq_left, show (0xE0 + k = 0xED) = (k = 13) by simp; omega]

theorem start_four {k : Nat} (h : k < 5) :
    start (0xF0 + k) =
      ([], some ⟨k, 3, if k = 0 then 0x90 else 0x80, if k = 4 then 0x8F else 0xBF⟩) := by
  unfold start
  rw [if_neg (by omega), if_neg (by omega), if_neg (by omega), if_neg (by omega), if_pos (by omega),
    Nat.add_sub_cancel_left]
  simp only [Nat.add_eq_left, show (0xF0 + k = 0xF4) = (k = 4) by simp; omega]

theorem decodeFrom_encodeChar (c : Char) (rest : List Nat) :
    decodeFrom none (encodeChar c ++ rest) = c :: decodeFrom none rest := by
  have back : Char.ofNat c.toNat = c := Char.ofNat_toNat c
  have valid : c.toNat < 0xD800 ∨ 0xDFFF < c.toNat ∧ c.toNat < 0x110000 := c.valid
  unfold encodeChar
  generalize c.toNat = n at back valid
  by_cases h₁ : n < 0x80
  · simp [decodeFrom, step, start, h₁, back]
  have last : step (some ⟨n / 64, 1, 0x80, 0xBF⟩) (0x80 + n % 64) = ([c], none) := by
    rw [step_last (by omega) (by omega), show n / 64 * 64 + n % 64 = n by omega, back]
  by_cases h₂ : n < 0x800
  · have lead : start (0xC0 + n / 64) = _ := start_two (by omega) (by omega)
    simp [h₁, h₂, decodeFrom, step.eq_1, lead, last]
  by_cases h₃ : n < 0x10000
  · obtain ⟨p, lead, next⟩ : ∃ p, start (0xE0 + n / 4096) = ([], some p) ∧
        step (some p) (0x80 + n / 64 % 64) = ([], some ⟨n / 64, 1, 0x80, 0xBF⟩) := by
      refine ⟨_, start_three (by omega), ?_⟩
      rw [step_more (by decide) (by split <;> omega) (by split <;> omega),
        show n / 4096 * 64 + n / 64 % 64 = n / 64 by omega]
    simp [h₁, h₂, h₃, decodeFrom, step.eq_1, lead, next, last]
  · obtain ⟨p, lead, next⟩ : ∃ p, start (0xF0 + n / 262144) = ([], some p) ∧
        step (some p) (0x80 + n / 4096 % 64) = ([], some ⟨n / 4096, 2, 0x80, 0xBF⟩) := by
      refine ⟨_, start_four (by omega), ?_⟩
      rw [step_more (by decide) (by split <;> omega) (by split <;> omega),
        show n / 262144 * 64 + n / 4096 % 64 = n / 4096 by omega]
    have third : step (some ⟨n / 4096, 2, 0x80, 0xBF⟩) (0x80 + n / 64 % 64) =
        ([], some ⟨n / 64, 1, 0x80, 0xBF⟩) := by
      rw [step_more (by decide) (by omega) (by omega),
        show n / 4096 * 64 + n / 64 % 64 = n / 64 by omega]
    simp [h₁, h₂, h₃, decodeFrom, step.eq_1, lead, next, third, last]

/-- An encoded character consists of octets. -/
theorem lt_of_mem_encodeChar {c : Char} {octet : Nat} (h : octet ∈ encodeChar c) : octet < 256 := by
  have valid : c.toNat < 0xD800 ∨ 0xDFFF < c.toNat ∧ c.toNat < 0x110000 := c.valid
  unfold encodeChar at h
  generalize c.toNat = n at valid h
  simp only [] at h
  split at h
  · rw [List.mem_singleton] at h
    omega
  · split at h
    · simp only [List.mem_cons, List.not_mem_nil, or_false] at h
      omega
    · split at h <;> simp only [List.mem_cons, List.not_mem_nil, or_false] at h <;> omega

theorem decode_encode (text : List Char) : decode (encode text) = text := by
  unfold decode encode
  induction text with
  | nil => rfl
  | cons c rest ih => rw [List.flatMap_cons, decodeFrom_encodeChar, ih]

end ResourceUrl.Utf8
