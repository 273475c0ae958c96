import DoxygenMarkdown.Text.Utf8

/-!
# Reading and writing UTF-8

A text that is written is read back (`decode_encode`). Bytes that are not well formed are read as
something else, but that changes nothing about the bytes of ASCII among them: such a byte ends
whatever character was begun and is read as itself (`decode_append_ascii`), and its character comes
from nothing else (`mem_of_mem_decode`, `head?_of_head?_decode`, `mem_of_mem_encode`). So bytes can
be cut at their line breaks before they are read or after.
-/

namespace DoxygenMarkdown.Utf8

/-! ## Texts are read back -/

section Characters

variable {a b c d : Nat} {bytes : List UInt8}

theorem toNat_ofNat {n : Nat} (h : n < 256) : (UInt8.ofNat n).toNat = n :=
  UInt8.toNat_ofNat_of_lt h

/-- A byte within the bounds goes on with the character. -/
theorem decodeFrom_some {p : Partial} (hbyte : a < 256) (hbounds : p.low ≤ a ∧ a ≤ p.high) :
    decodeFrom (some p) (UInt8.ofNat a :: bytes) =
      if p.more = 1 then Char.ofNat (64 * p.value + (a - 0x80)) :: decodeFrom none bytes
      else decodeFrom (some ⟨p.more - 1, 0x80, 0xBF, 64 * p.value + (a - 0x80)⟩) bytes := by
  rw [decodeFrom, toNat_ofNat hbyte, if_pos hbounds]

theorem decodeFrom_one (ha : a < 0x80) :
    decodeFrom none (UInt8.ofNat a :: bytes) = Char.ofNat a :: decodeFrom none bytes := by
  rw [decodeFrom, start, toNat_ofNat (by omega), if_pos ha]

theorem decodeFrom_two (ha : 0xC2 ≤ a ∧ a < 0xE0) (hb : 0x80 ≤ b ∧ b ≤ 0xBF) :
    decodeFrom none (UInt8.ofNat a :: UInt8.ofNat b :: bytes) =
      Char.ofNat (64 * (a - 0xC0) + (b - 0x80)) :: decodeFrom none bytes := by
  have hstart : start (UInt8.ofNat a) = .unfinished ⟨1, 0x80, 0xBF, a - 0xC0⟩ := by
    rw [start, toNat_ofNat (by omega), if_neg (by omega), if_neg (by omega), if_pos ha.2]
  rw [decodeFrom, hstart]
  exact decodeFrom_some (by omega) hb

/-- The bounds on the second byte leave out longer forms and surrogates. -/
theorem decodeFrom_three (ha : 0xE0 ≤ a ∧ a < 0xF0) (hb : 0x80 ≤ b ∧ b ≤ 0xBF)
    (hlong : a = 0xE0 → 0xA0 ≤ b) (hsurrogate : a = 0xED → b ≤ 0x9F) (hc : 0x80 ≤ c ∧ c ≤ 0xBF) :
    decodeFrom none (UInt8.ofNat a :: UInt8.ofNat b :: UInt8.ofNat c :: bytes) =
      Char.ofNat (64 * (64 * (a - 0xE0) + (b - 0x80)) + (c - 0x80)) :: decodeFrom none bytes := by
  obtain ⟨low, high, hbounds, hstart⟩ : ∃ low high, (low ≤ b ∧ b ≤ high) ∧
      start (UInt8.ofNat a) = .unfinished ⟨2, low, high, a - 0xE0⟩ := by
    rw [start, toNat_ofNat (by omega), if_neg (by omega), if_neg (by omega), if_neg (by omega)]
    by_cases hfirst : a = 0xE0
    · exact ⟨0xA0, 0xBF, ⟨hlong hfirst, hb.2⟩, by rw [if_pos hfirst, hfirst]⟩
    · rw [if_neg hfirst]
      by_cases hhole : a = 0xED
      · exact ⟨0x80, 0x9F, ⟨hb.1, hsurrogate hhole⟩, if_pos hhole⟩
      · exact ⟨0x80, 0xBF, hb, by rw [if_neg hhole, if_pos ha.2]⟩
  rw [decodeFrom, hstart]
  exact (decodeFrom_some (by omega) hbounds).trans (decodeFrom_some (by omega) hc)

/-- The bounds on the second byte leave out longer forms and all beyond the last code point. -/
theorem decodeFrom_four (ha : 0xF0 ≤ a ∧ a ≤ 0xF4) (hb : 0x80 ≤ b ∧ b ≤ 0xBF)
    (hlong : a = 0xF0 → 0x90 ≤ b) (hlast : a = 0xF4 → b ≤ 0x8F) (hc : 0x80 ≤ c ∧ c ≤ 0xBF)
    (hd : 0x80 ≤ d ∧ d ≤ 0xBF) :
    decodeFrom none
        (UInt8.ofNat a :: UInt8.ofNat b :: UInt8.ofNat c :: UInt8.ofNat d :: bytes) =
      Char.ofNat (64 * (64 * (64 * (a - 0xF0) + (b - 0x80)) + (c - 0x80)) + (d - 0x80)) ::
        decodeFrom none bytes := by
  obtain ⟨low, high, hbounds, hstart⟩ : ∃ low high, (low ≤ b ∧ b ≤ high) ∧
      start (UInt8.ofNat a) = .unfinished ⟨3, low, high, a - 0xF0⟩ := by
    rw [start, toNat_ofNat (by omega), if_neg (by omega), if_neg (by omega), if_neg (by omega),
      if_neg (by omega), if_neg (by omega), if_neg (by omega)]
    by_cases hfirst : a = 0xF0
    · exact ⟨0x90, 0xBF, ⟨hlong hfirst, hb.2⟩, by rw [if_pos hfirst, hfirst]⟩
    · rw [if_neg hfirst]
      by_cases hend : a = 0xF4
      · exact ⟨0x80, 0x8F, ⟨hb.1, hlast hend⟩, by rw [if_neg (by omega), if_pos hend, hend]⟩
      · exact ⟨0x80, 0xBF, hb, if_pos (by omega)⟩
  rw [decodeFrom, hstart]
  exact (decodeFrom_some (by omega) hbounds).trans
    ((decodeFrom_some (by omega) hc).trans (decodeFrom_some (by omega) hd))

theorem decodeFrom_encodeChar (c : Char) (bytes : List UInt8) :
    decodeFrom none (String.utf8EncodeChar c ++ bytes) = c :: decodeFrom none bytes := by
  obtain ⟨v, hv⟩ : ∃ v, v = c.val.toNat := ⟨_, rfl⟩
  have hvalid : v < 0xD800 ∨ 0xDFFF < v ∧ v < 0x110000 := by
    rw [hv]
    exact c.valid
  have hchar {n : Nat} (h : n = v) : Char.ofNat n = c := by
    rw [h, hv]
    exact Char.ofNat_toNat c
  rw [String.utf8EncodeChar, ← hv]
  by_cases hone : v ≤ 127
  · rw [if_pos hone, List.cons_append, decodeFrom_one (by omega), hchar rfl]
    rfl
  by_cases htwo : v ≤ 2047
  · rw [if_neg hone, if_pos htwo]
    refine (decodeFrom_two (by omega) (by omega)).trans ?_
    rw [hchar (by omega)]
    rfl
  by_cases hthree : v ≤ 65535
  · rw [if_neg hone, if_neg htwo, if_pos hthree]
    refine (decodeFrom_three (by omega) (by omega) (by omega) (by omega) (by omega)).trans ?_
    rw [hchar (by omega)]
    rfl
  · rw [if_neg hone, if_neg htwo, if_neg hthree]
    refine (decodeFrom_four (by omega) (by omega) (by omega) (by omega) (by omega)
      (by omega)).trans ?_
    rw [hchar (by omega)]
    rfl

end Characters

/-- **Texts are read back.** -/
theorem decode_encode (t : Text) : decode (encode t) = t := by
  induction t with
  | nil => rfl
  | cons c t ih =>
    have hcons : encode (c :: t) = String.utf8EncodeChar c ++ encode t := List.flatMap_cons
    rw [hcons, decode, decodeFrom_encodeChar]
    exact congrArg (c :: ·) ih

theorem encode_append (t u : Text) : encode (t ++ u) = encode t ++ encode u := List.flatMap_append

/-! ## Bytes of ASCII in any bytes -/

/-- A start of a character outside ASCII: no byte of ASCII goes on with it, and whatever does makes
it no character of ASCII. -/
structure Partial.IsBeyondAscii (p : Partial) : Prop where
  low : 0x80 ≤ p.low
  /-- The next byte gives a value that is beyond ASCII once one more byte follows. -/
  value : 2 ≤ 64 * p.value + (p.low - 0x80)
  last : p.more = 1 → 0x80 ≤ 64 * p.value + (p.low - 0x80)

theorem start_of_ascii {b : UInt8} (h : b.toNat < 0x80) : start b = .char (Char.ofNat b.toNat) := by
  rw [start, if_pos h]

theorem toNat_of_start_char {b : UInt8} {c : Char} (h : start b = .char c) :
    b.toNat < 0x80 ∧ c = Char.ofNat b.toNat := by
  by_cases hb : b.toNat < 0x80
  · rw [start_of_ascii hb] at h
    exact ⟨hb, (Start.char.inj h).symm⟩
  · rw [start, if_neg hb] at h
    repeat' split at h
    all_goals cases h

theorem isBeyondAscii_start {b : UInt8} {p : Partial} (h : start b = .unfinished p) :
    p.IsBeyondAscii := by
  rw [start] at h
  repeat' split at h
  all_goals cases h
  all_goals exact ⟨by simp, by simp only []; omega, by simp only []; omega⟩

/-- A byte that goes on with a character leaves its start beyond ASCII. -/
theorem Partial.IsBeyondAscii.next {p : Partial} (h : p.IsBeyondAscii) {b : Nat}
    (hlow : p.low ≤ b) :
    Partial.IsBeyondAscii ⟨p.more - 1, 0x80, 0xBF, 64 * p.value + (b - 0x80)⟩ := by
  have hvalue : 2 ≤ 64 * p.value + (b - 0x80) := Nat.le_trans h.value (by omega)
  exact ⟨Nat.le_refl _, by simp only []; omega, fun _ => by simp only []; omega⟩

theorem decodeFrom_append_ascii {b : UInt8} (hb : b.toNat < 0x80) (p : Option Partial)
    (hp : ∀ q ∈ p, q.IsBeyondAscii) (xs ys : List UInt8) :
    decodeFrom p (xs ++ b :: ys) = decodeFrom p xs ++ Char.ofNat b.toNat :: decodeFrom none ys := by
  have hnone : ∀ q ∈ (none : Option Partial), q.IsBeyondAscii := fun _ h => nomatch h
  fun_induction decodeFrom p xs with
  | case1 => rw [List.nil_append, decodeFrom, start_of_ascii hb]; rfl
  | case2 p =>
    have hout : ¬ (p.low ≤ b.toNat ∧ b.toNat ≤ p.high) := fun h => by
      have hlow := (hp p rfl).low
      omega
    rw [List.nil_append, decodeFrom, if_neg hout, start_of_ascii hb]
    rfl
  | case3 x xs c hc ih => rw [List.cons_append, decodeFrom, hc, List.cons_append, ← ih hnone]
  | case4 x xs q hq ih =>
    rw [List.cons_append, decodeFrom, hq]
    exact ih fun _ h => Option.some.inj h ▸ isBeyondAscii_start hq
  | case5 x xs hx ih => rw [List.cons_append, decodeFrom, hx, List.cons_append, ← ih hnone]
  | case6 p x xs hin value hmore ih =>
    rw [List.cons_append, decodeFrom, if_pos hin, if_pos hmore, List.cons_append, ← ih hnone]
  | case7 p x xs hin value hmore ih =>
    rw [List.cons_append, decodeFrom, if_pos hin, if_neg hmore]
    exact ih fun _ h => Option.some.inj h ▸ (hp p rfl).next hin.1
  | case8 p x xs hout c hc ih =>
    rw [List.cons_append, decodeFrom, if_neg hout, hc, List.cons_append, List.cons_append,
      ← ih hnone]
  | case9 p x xs hout q hq ih =>
    rw [List.cons_append, decodeFrom, if_neg hout, hq, List.cons_append]
    exact congrArg _ (ih fun _ h => Option.some.inj h ▸ isBeyondAscii_start hq)
  | case10 p x xs hout hx ih =>
    rw [List.cons_append, decodeFrom, if_neg hout, hx, List.cons_append, List.cons_append,
      ← ih hnone]

/-- A byte of ASCII is read as itself, whatever stands around it. -/
theorem decode_append_ascii {b : UInt8} (hb : b.toNat < 0x80) (xs ys : List UInt8) :
    decode (xs ++ b :: ys) = decode xs ++ Char.ofNat b.toNat :: decode ys :=
  decodeFrom_append_ascii hb none (fun _ h => nomatch h) xs ys

/-- Characters of ASCII, other than the null character, have no other code point. -/
theorem eq_of_ofNat_eq {b n : Nat} (hpos : 0 < b) (hb : b < 0x80)
    (h : Char.ofNat b = Char.ofNat n) : b = n := by
  have hleft : (Char.ofNat b).toNat = b := by
    rw [Char.ofNat, dif_pos (.inl (by omega))]
    rfl
  -- a number that is no code point stands for the null character
  have hright : (Char.ofNat n).toNat = n ∨ (Char.ofNat n).toNat = 0 := by
    rw [Char.ofNat]
    by_cases hvalid : n.isValidChar
    · rw [dif_pos hvalid]
      exact .inl rfl
    · rw [dif_neg hvalid]
      exact .inr rfl
  rw [h] at hleft
  omega

theorem ofNat_ne_replacement {b : UInt8} (hpos : 0 < b.toNat) (hb : b.toNat < 0x80) :
    Char.ofNat b.toNat ≠ replacement := fun heq => by
  have hcode := eq_of_ofNat_eq (n := 0xFFFD) hpos hb heq
  omega

theorem eq_of_start_char {b x : UInt8} (hpos : 0 < b.toNat) (hb : b.toNat < 0x80) {c : Char}
    (hc : start x = .char c) (heq : Char.ofNat b.toNat = c) : b = x := by
  obtain ⟨-, hchar⟩ := toNat_of_start_char hc
  exact UInt8.toNat_inj.1 (eq_of_ofNat_eq hpos hb (heq.trans hchar))

theorem mem_of_mem_decodeFrom {b : UInt8} (hpos : 0 < b.toNat) (hb : b.toNat < 0x80)
    {p : Option Partial} (hp : ∀ q ∈ p, q.IsBeyondAscii) {xs : List UInt8}
    (h : Char.ofNat b.toNat ∈ decodeFrom p xs) : b ∈ xs := by
  have hreplacement : Char.ofNat b.toNat ≠ replacement := ofNat_ne_replacement hpos hb
  have hnone : ∀ q ∈ (none : Option Partial), q.IsBeyondAscii := fun _ h => nomatch h
  fun_induction decodeFrom p xs with
  | case1 => cases h
  | case2 p => exact absurd (List.mem_singleton.1 h) hreplacement
  | case3 x xs c hc ih =>
    exact List.mem_cons.2 ((List.mem_cons.1 h).imp (eq_of_start_char hpos hb hc) (ih hnone))
  | case4 x xs q hq ih =>
    exact List.mem_cons_of_mem x (ih (fun _ h => Option.some.inj h ▸ isBeyondAscii_start hq) h)
  | case5 x xs hx ih =>
    exact List.mem_cons_of_mem x (ih hnone ((List.mem_cons.1 h).resolve_left hreplacement))
  | case6 p x xs hin value hmore ih =>
    rcases List.mem_cons.1 h with heq | h
    · have hcode := eq_of_ofNat_eq hpos hb heq
      have hlast := (hp p rfl).last hmore
      omega
    · exact List.mem_cons_of_mem x (ih hnone h)
  | case7 p x xs hin value hmore ih =>
    exact List.mem_cons_of_mem x
      (ih (fun _ h => Option.some.inj h ▸ (hp p rfl).next hin.1) h)
  | case8 p x xs hout c hc ih =>
    have htail := (List.mem_cons.1 h).resolve_left hreplacement
    exact List.mem_cons.2 ((List.mem_cons.1 htail).imp (eq_of_start_char hpos hb hc) (ih hnone))
  | case9 p x xs hout q hq ih =>
    have htail := (List.mem_cons.1 h).resolve_left hreplacement
    exact List.mem_cons_of_mem x
      (ih (fun _ h => Option.some.inj h ▸ isBeyondAscii_start hq) htail)
  | case10 p x xs hout hx ih =>
    have htail := (List.mem_cons.1 h).resolve_left hreplacement
    exact List.mem_cons_of_mem x (ih hnone ((List.mem_cons.1 htail).resolve_left hreplacement))

/-- A character of ASCII is read from its own byte, and from no other bytes. -/
theorem mem_of_mem_decode {b : UInt8} (hpos : 0 < b.toNat) (hb : b.toNat < 0x80) {xs : List UInt8}
    (h : Char.ofNat b.toNat ∈ decode xs) : b ∈ xs :=
  mem_of_mem_decodeFrom (p := none) hpos hb (fun _ h => nomatch h) h

theorem head?_decodeFrom_some {b : UInt8} (hpos : 0 < b.toNat) (hb : b.toNat < 0x80)
    {p : Partial} (hp : p.IsBeyondAscii) (xs : List UInt8) :
    Char.ofNat b.toNat ∉ (decodeFrom (some p) xs).head? := by
  have hreplacement : Char.ofNat b.toNat ≠ replacement := ofNat_ne_replacement hpos hb
  induction xs generalizing p with
  | nil => exact fun h => hreplacement (Option.some.inj h).symm
  | cons x xs ih =>
    rw [decodeFrom]
    split
    · next hin =>
      split
      · next hmore =>
        intro h
        have hcode := eq_of_ofNat_eq hpos hb (Option.some.inj h).symm
        have hlast := hp.last hmore
        omega
      · exact ih (hp.next hin.1)
    · split <;> exact fun h => hreplacement (Option.some.inj h).symm

/-- A text begins with a character of ASCII only if its bytes begin with the byte of it. -/
theorem head?_of_head?_decode {b : UInt8} (hpos : 0 < b.toNat) (hb : b.toNat < 0x80)
    {xs : List UInt8} (h : Char.ofNat b.toNat ∈ (decode xs).head?) : b ∈ xs.head? := by
  rcases xs with _ | ⟨x, xs⟩
  · cases h
  · rw [decode, decodeFrom] at h
    split at h
    · next c hc =>
      have hself := eq_of_start_char hpos hb hc (Option.some.inj h).symm
      rw [hself]
      rfl
    · next q hq => exact absurd h (head?_decodeFrom_some hpos hb (isBeyondAscii_start hq) xs)
    · exact absurd (Option.some.inj h).symm (ofNat_ne_replacement hpos hb)

/-- A byte of ASCII that is written stands for its own character. -/
theorem mem_of_mem_encode {b : UInt8} (hb : b.toNat < 0x80) {t : Text} (h : b ∈ encode t) :
    Char.ofNat b.toNat ∈ t := by
  obtain ⟨xs, ys, hsplit⟩ := List.append_of_mem h
  have hread := decode_append_ascii hb xs ys
  rw [← hsplit, decode_encode] at hread
  rw [hread]
  exact List.mem_append_right _ List.mem_cons_self

end DoxygenMarkdown.Utf8
