import Mathlib.Tactic.IntervalCases
import ScopeScript.Proofs.Scanning.Lexeme

/-!
# The bytes of a text

A text reads back from its bytes unchanged, so nothing is ever replaced in it. Its bytes may be cut
wherever no continuation byte comes next: what is on either side is the bytes of a text again.
-/

namespace ScopeScript

theorem toNat_ofNat_byte {n : Nat} (h : n < 256) : (UInt8.ofNat n).toNat = n := by
  rw [UInt8.toNat_ofNat']
  omega

namespace Utf8

theorem encode_eq (text : String) : encode text = text.toList.flatMap String.utf8EncodeChar := by
  rw [encode, String.toUTF8, ← String.utf8Encode_toList, List.utf8Encode]
  simp

theorem encode_ofList (chars : List Char) :
    encode (String.ofList chars) = chars.flatMap String.utf8EncodeChar := by
  rw [encode_eq, String.toList_ofList]

theorem encode_append (text more : String) :
    encode (text ++ more) = encode text ++ encode more := by
  rw [encode_eq, encode_eq, encode_eq, String.toList_append, List.flatMap_append]

/-! ## Reading a text back -/

theorem first_one {n : Nat} (h : n < 0x80) : first (UInt8.ofNat n) = .complete (Char.ofNat n) := by
  have hbyte := toNat_ofNat_byte (Nat.lt_trans h (by decide))
  have hascii : UInt8.ofNat n < 0x80 := by
    rw [UInt8.lt_iff_toNat_lt, hbyte]
    exact h
  simp only [first, hascii, if_true, hbyte]

theorem first_two {n : Nat} (hn : 0xC2 ≤ n) (hn' : n < 0xE0) :
    first (UInt8.ofNat n) = .pending ⟨n % 32, 1, 0, 0x80, 0xBF⟩ := by
  interval_cases n <;> rfl

theorem first_three {n : Nat} (hn : 0xE0 ≤ n) (hn' : n < 0xF0) :
    first (UInt8.ofNat n) = .pending ⟨n % 16, 1, 1, if n = 0xE0 then 0xA0 else 0x80,
      if n = 0xED then 0x9F else 0xBF⟩ := by
  interval_cases n <;> rfl

theorem first_four {n : Nat} (hn : 0xF0 ≤ n) (hn' : n < 0xF5) :
    first (UInt8.ofNat n) = .pending ⟨n % 8, 1, 2, if n = 0xF0 then 0x90 else 0x80,
      if n = 0xF4 then 0x8F else 0xBF⟩ := by
  interval_cases n <;> rfl

theorem partsFrom_first {byte : UInt8} {state : Pending} (h : first byte = .pending state)
    (rest : List UInt8) : partsFrom none (byte :: rest) = partsFrom (some state) rest := by
  simp only [partsFrom, advance, begin, h, List.nil_append]

section Next

variable {bits seen n : Nat} {least greatest : UInt8}

theorem in_range (hn : n < 256) (hleast : least.toNat ≤ n) (hgreatest : n ≤ greatest.toNat) :
    (least ≤ UInt8.ofNat n ∧ UInt8.ofNat n ≤ greatest) ∧ (UInt8.ofNat n).toNat = n := by
  have hbyte := toNat_ofNat_byte hn
  rw [UInt8.le_iff_toNat_le, UInt8.le_iff_toNat_le, hbyte]
  exact ⟨⟨hleast, hgreatest⟩, rfl⟩

theorem partsFrom_next (more : Nat) (hn : n < 256) (hleast : least.toNat ≤ n)
    (hgreatest : n ≤ greatest.toNat) (rest : List UInt8) :
    partsFrom (some ⟨bits, seen, more + 1, least, greatest⟩) (UInt8.ofNat n :: rest) =
      partsFrom (some ⟨bits * 64 + n % 64, seen + 1, more, 0x80, 0xBF⟩) rest := by
  obtain ⟨hrange, hbyte⟩ := in_range hn hleast hgreatest
  simp only [partsFrom, advance, Pending.next, hrange, and_self, if_true, hbyte, List.nil_append]

theorem partsFrom_last (hn : n < 256) (hleast : least.toNat ≤ n) (hgreatest : n ≤ greatest.toNat)
    (rest : List UInt8) :
    partsFrom (some ⟨bits, seen, 0, least, greatest⟩) (UInt8.ofNat n :: rest) =
      .char (Char.ofNat (bits * 64 + n % 64)) :: parts rest := by
  obtain ⟨hrange, hbyte⟩ := in_range hn hleast hgreatest
  simp only [partsFrom, advance, Pending.next, hrange, and_self, if_true, hbyte, List.cons_append,
    List.nil_append, parts]

end Next

/-- Any byte that carries six bits may continue a character, but for the second one of some. -/
theorem tail_range (m : Nat) :
    (0x80 : UInt8).toNat ≤ m % 64 + 128 ∧ m % 64 + 128 ≤ (0xBF : UInt8).toNat := by
  simp only [UInt8.reduceToNat]
  omega

/-- A character is read back from its bytes. -/
theorem parts_utf8EncodeChar (c : Char) (rest : List UInt8) :
    parts (String.utf8EncodeChar c ++ rest) = .char c :: parts rest := by
  have hback : Char.ofNat c.val.toNat = c := Char.ofNat_toNat c
  have hvalid : c.val.toNat < 0xD800 ∨ 0xDFFF < c.val.toNat ∧ c.val.toNat < 0x110000 := c.valid
  unfold String.utf8EncodeChar parts
  dsimp only
  generalize c.val.toNat = v at hback hvalid
  obtain ⟨hlow, hhigh⟩ := tail_range v
  split
  next hone =>
    have hfirst : first (UInt8.ofNat v) = .complete (Char.ofNat v) := first_one (by omega)
    simp only [List.cons_append, List.nil_append, partsFrom, advance, begin, hfirst, hback]
  split
  next htwo =>
    have hbits : (v / 64 % 32 + 192) % 32 * 64 + (v % 64 + 128) % 64 = v := by omega
    rw [List.cons_append, partsFrom_first (first_two (by omega) (by omega)), List.cons_append,
      partsFrom_last (by omega) hlow hhigh, hbits, hback]
    rfl
  obtain ⟨hlow', hhigh'⟩ := tail_range (v / 64)
  split
  next hthree =>
    have hbits : ((v / 4096 % 16 + 224) % 16 * 64 + (v / 64 % 64 + 128) % 64) * 64
        + (v % 64 + 128) % 64 = v := by omega
    -- The first of these bytes excludes what two bytes hold, and the surrogates.
    have hleast : (if v / 4096 % 16 + 224 = 0xE0 then 0xA0 else 0x80 : UInt8).toNat ≤
        v / 64 % 64 + 128 := by
      split <;> simp only [UInt8.reduceToNat] <;> omega
    have hgreatest : v / 64 % 64 + 128 ≤
        (if v / 4096 % 16 + 224 = 0xED then 0x9F else 0xBF : UInt8).toNat := by
      split <;> simp only [UInt8.reduceToNat] <;> omega
    rw [List.cons_append, partsFrom_first (first_three (by omega) (by omega)), List.cons_append,
      partsFrom_next 0 (by omega) hleast hgreatest, List.cons_append,
      partsFrom_last (by omega) hlow hhigh, hbits, hback]
    rfl
  next hfour =>
    have hbits : (((v / 262144 % 8 + 240) % 8 * 64 + (v / 4096 % 64 + 128) % 64) * 64
        + (v / 64 % 64 + 128) % 64) * 64 + (v % 64 + 128) % 64 = v := by omega
    have hleast : (if v / 262144 % 8 + 240 = 0xF0 then 0x90 else 0x80 : UInt8).toNat ≤
        v / 4096 % 64 + 128 := by
      split <;> simp only [UInt8.reduceToNat] <;> omega
    have hgreatest : v / 4096 % 64 + 128 ≤
        (if v / 262144 % 8 + 240 = 0xF4 then 0x8F else 0xBF : UInt8).toNat := by
      split <;> simp only [UInt8.reduceToNat] <;> omega
    rw [List.cons_append, partsFrom_first (first_four (by omega) (by omega)), List.cons_append,
      partsFrom_next 1 (by omega) hleast hgreatest, List.cons_append,
      partsFrom_next 0 (by omega) hlow' hhigh', List.cons_append,
      partsFrom_last (by omega) hlow hhigh, hbits, hback]
    rfl

theorem parts_encode (text : String) : parts (encode text) = text.toList.map .char := by
  rw [encode_eq]
  induction text.toList with
  | nil => rfl
  | cons c rest ih => rw [List.flatMap_cons, parts_utf8EncodeChar, ih, List.map_cons]

/-- A text is read back from its bytes. -/
theorem lossy_encode (text : String) : lossy (encode text) = text := by
  have hchars : (text.toList.map Part.char).map Part.replacement = text.toList := by
    simp [Part.replacement, Function.comp_def]
  rw [lossy, parts_encode, hchars, String.ofList_toList]

theorem encode_inj {text text' : String} (h : encode text = encode text') : text = text' := by
  rw [← lossy_encode text, h, lossy_encode]

end Utf8

namespace Source

/-! ## Cutting a text -/

theorem continuation_iff : ∀ byte, isContinuation byte = true ↔
    0x80 ≤ byte.toNat ∧ byte.toNat < 0xC0 :=
  forall_byte (by decide +kernel)

theorem isContinuation_tail (m : Nat) : isContinuation (UInt8.ofNat (m % 64 + 128)) = true := by
  rw [continuation_iff, toNat_ofNat_byte (by omega)]
  omega

theorem not_isContinuation_lead {n : Nat} (h : n < 0x80 ∨ 0xC0 ≤ n) (hn : n < 256) :
    isContinuation (UInt8.ofNat n) = false := by
  rw [Bool.eq_false_iff, Ne, continuation_iff, toNat_ofNat_byte hn]
  omega

theorem not_ascii_lead {n : Nat} (h : 0xC0 ≤ n) (hn : n < 256) : ¬ UInt8.ofNat n < 0x80 := by
  rw [UInt8.lt_iff_toNat_lt, toNat_ofNat_byte hn]
  exact Nat.not_lt.mpr (Nat.le_trans (by decide) h)

/-- A character has one byte that is no continuation, the first, and if that is an ASCII byte no
other. -/
theorem utf8EncodeChar_eq_cons (c : Char) :
    ∃ first more, String.utf8EncodeChar c = first :: more ∧ isContinuation first = false
      ∧ (∀ byte ∈ more, isContinuation byte) ∧ (first < 0x80 → more = []) := by
  have hwide : ∀ {n : Nat} {more : List UInt8}, 0xC0 ≤ n → n < 256 →
      (∀ byte ∈ more, isContinuation byte) →
      ∃ first more', UInt8.ofNat n :: more = first :: more' ∧ isContinuation first = false
        ∧ (∀ byte ∈ more', isContinuation byte) ∧ (first < 0x80 → more' = []) := by
    intro n more hn hn' hmore
    exact ⟨_, _, rfl, not_isContinuation_lead (.inr hn) hn', hmore,
      fun h => absurd h (not_ascii_lead hn hn')⟩
  unfold String.utf8EncodeChar
  dsimp only
  split
  next =>
    exact ⟨_, _, rfl, not_isContinuation_lead (by omega) (by omega), List.forall_mem_nil _,
      fun _ => rfl⟩
  split
  next =>
    exact hwide (by omega) (by omega) (List.forall_mem_singleton.mpr (isContinuation_tail _))
  split
  next =>
    refine hwide (by omega) (by omega) (List.forall_mem_cons.mpr ⟨isContinuation_tail _, ?_⟩)
    exact List.forall_mem_singleton.mpr (isContinuation_tail _)
  next =>
    refine hwide (by omega) (by omega) (List.forall_mem_cons.mpr ⟨isContinuation_tail _, ?_⟩)
    refine List.forall_mem_cons.mpr ⟨isContinuation_tail _, ?_⟩
    exact List.forall_mem_singleton.mpr (isContinuation_tail _)

/-- Bytes of characters are cut between two of them where no continuation byte comes next. -/
theorem flatMap_split {chars : List Char} {bytes after : List UInt8}
    (h : chars.flatMap String.utf8EncodeChar = bytes ++ after)
    (hafter : ∀ next ∈ after.head?, isContinuation next = false) :
    ∃ front back, chars = front ++ back ∧ front.flatMap String.utf8EncodeChar = bytes
      ∧ back.flatMap String.utf8EncodeChar = after := by
  induction chars generalizing bytes with
  | nil =>
      obtain ⟨rfl, rfl⟩ := List.append_eq_nil_iff.mp h.symm
      exact ⟨[], [], rfl, rfl, rfl⟩
  | cons c rest ih =>
      obtain ⟨first, more, hc, -, hmore, -⟩ := utf8EncodeChar_eq_cons c
      cases bytes with
      | nil => exact ⟨[], c :: rest, rfl, rfl, h⟩
      | cons byte bytes =>
          rw [List.flatMap_cons, hc] at h
          obtain ⟨rfl, hbehind⟩ := List.cons.inj h
          rcases List.append_eq_append_iff.mp hbehind with ⟨inside, rfl, hrest⟩ | ⟨cut, rfl, rfl⟩
          · obtain ⟨front, back, rfl, rfl, hback⟩ := ih hrest
            exact ⟨c :: front, back, rfl, by rw [List.flatMap_cons, hc, List.cons_append], hback⟩
          · cases cut with
            | nil =>
                exact ⟨[c], rest, rfl, by simp [hc], rfl⟩
            | cons next cut =>
                have hnext := hafter next rfl
                rw [hmore next (by simp)] at hnext
                cases hnext

/-- The bytes of a text are cut between two characters where no continuation byte comes next. -/
theorem encode_split {source : String} {bytes after : List UInt8}
    (h : Utf8.encode source = bytes ++ after)
    (hafter : ∀ next ∈ after.head?, isContinuation next = false) :
    ∃ front back : String, source = front ++ back ∧ Utf8.encode front = bytes
      ∧ Utf8.encode back = after := by
  rw [Utf8.encode_eq] at h
  obtain ⟨front, back, hchars, hfront, hback⟩ := flatMap_split h hafter
  refine ⟨.ofList front, .ofList back, ?_, ?_, ?_⟩
  · rw [← String.ofList_append, ← hchars, String.ofList_toList]
  · rw [Utf8.encode_ofList, hfront]
  · rw [Utf8.encode_ofList, hback]

theorem encode_head {source : String} :
    ∀ next ∈ (Utf8.encode source).head?, isContinuation next = false := by
  rw [Utf8.encode_eq]
  cases source.toList with
  | nil => exact nofun
  | cons c rest =>
      obtain ⟨first, more, hc, hfirst, -⟩ := utf8EncodeChar_eq_cons c
      rw [List.flatMap_cons, hc]
      rintro next hnext
      obtain rfl : first = next := by simpa using hnext
      exact hfirst

/-- Behind an ASCII byte no character goes on. -/
theorem boundary_of_ascii {source : String} (front : List UInt8) {after : List UInt8} {last : UInt8}
    (h : Utf8.encode source = front ++ last :: after) (hlast : last < 0x80) :
    ∀ next ∈ after.head?, isContinuation next = false := by
  have hplain : isContinuation last = false := by
    rw [Bool.eq_false_iff, Ne, continuation_iff]
    have hlt : last.toNat < 0x80 := UInt8.lt_iff_toNat_lt.mp hlast
    omega
  obtain ⟨-, back, -, -, hback⟩ := encode_split h fun next hnext => by
    obtain rfl : last = next := Option.some.inj hnext
    exact hplain
  rw [Utf8.encode_eq] at hback
  cases hchars : back.toList with
  | nil => simp [hchars] at hback
  | cons c rest =>
      obtain ⟨first, more, hc, -, -, hmore⟩ := utf8EncodeChar_eq_cons c
      rw [hchars, List.flatMap_cons, hc] at hback
      obtain ⟨rfl, hrest⟩ := List.cons.inj hback
      have hafter : after = Utf8.encode (.ofList rest) := by
        rw [Utf8.encode_ofList, ← hrest, hmore hlast]
        rfl
      rw [hafter]
      exact encode_head

/-- Bytes of a text of which only the first is no continuation are one character. -/
theorem exists_singleton {text : String} {byte : UInt8} {more : List UInt8}
    (h : Utf8.encode text = byte :: more) (hmore : ∀ b ∈ more, isContinuation b) :
    ∃ c, text = String.singleton c := by
  cases hchars : text.toList with
  | nil => simp [Utf8.encode_eq, hchars] at h
  | cons c rest =>
      cases rest with
      | nil =>
          refine ⟨c, ?_⟩
          rw [← text.ofList_toList, hchars]
          rfl
      | cons d rest =>
          obtain ⟨first, inside, hc, -⟩ := utf8EncodeChar_eq_cons c
          obtain ⟨first', inside', hd, hfirst', -⟩ := utf8EncodeChar_eq_cons d
          rw [Utf8.encode_eq, hchars, List.flatMap_cons, hc, List.flatMap_cons, hd] at h
          obtain ⟨-, rfl⟩ := List.cons.inj h
          rw [hmore first' (by simp)] at hfirst'
          cases hfirst'

end Source

end ScopeScript
