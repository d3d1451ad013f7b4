import Mathlib.Tactic.IntervalCases
import LeadPipe.Python.Urljoin

/-!
# Queries

`parse_qsl` reads back the parameters that `urlencode` wrote: the bytes of a text are decoded to
the text, an escape to its byte, and no separator stands inside a part.
-/

namespace LeadPipe.Urllib

/-- `s.encode("utf-8")` -/
def encodeUtf8 (s : Text) : List Nat :=
  s.flatMap fun c => (String.utf8EncodeChar c).map UInt8.toNat

theorem utf8Lead_two {b : Nat} (h : 0xC2 ≤ b ∧ b ≤ 0xDF) : utf8Lead b = some (1, 0x80, 0xBF) := by
  obtain ⟨hlo, hhi⟩ := h
  interval_cases b <;> rfl

theorem utf8Lead_three {b : Nat} (h : 0xE0 ≤ b ∧ b ≤ 0xEF) :
    utf8Lead b = some (2, if b = 0xE0 then 0xA0 else 0x80, if b = 0xED then 0x9F else 0xBF) := by
  obtain ⟨hlo, hhi⟩ := h
  interval_cases b <;> rfl

theorem utf8Lead_four {b : Nat} (h : 0xF0 ≤ b ∧ b ≤ 0xF4) :
    utf8Lead b = some (3, if b = 0xF0 then 0x90 else 0x80, if b = 0xF4 then 0x8F else 0xBF) := by
  obtain ⟨hlo, hhi⟩ := h
  interval_cases b <;> rfl

theorem utf8Tail_cons {n lo hi t : Nat} (h : lo ≤ t ∧ t ≤ hi) (bytes : List Nat) :
    utf8Tail (n + 1) lo hi (t :: bytes) =
      (t :: (utf8Tail n 0x80 0xBF bytes).1, (utf8Tail n 0x80 0xBF bytes).2) := by
  have hrange : (decide (lo ≤ t) && decide (t ≤ hi)) = true := by simpa using h
  rw [utf8Tail, if_pos hrange]

theorem utf8Tail_zero (lo hi : Nat) (bytes : List Nat) : utf8Tail 0 lo hi bytes = ([], bytes) := by
  unfold utf8Tail
  rfl

theorem decodeUtf8_lead {b n lo hi : Nat} {bytes tail rest : List Nat} (fuel : Nat)
    (hb : ¬b < 0x80) (hlead : utf8Lead b = some (n, lo, hi))
    (htail : utf8Tail n lo hi bytes = (tail, rest)) (hlength : tail.length = n) :
    decodeUtf8 (fuel + 1) (b :: bytes) =
      Char.ofNat (tail.foldl (fun v t => 64 * v + (t - 0x80))
        (b &&& (if n == 1 then 0x1F else if n == 2 then 0x0F else 0x07))) ::
        decodeUtf8 fuel rest := by
  rw [decodeUtf8, if_neg hb, hlead]
  dsimp only
  rw [htail]
  simp [hlength]

theorem byte_toNat {n : Nat} (h : n < 256) : (UInt8.ofNat n).toNat = n := by
  rw [UInt8.toNat_ofNat']
  omega

theorem decodeUtf8_char (c : Char) (fuel : Nat) (rest : List Nat) :
    decodeUtf8 (fuel + 1) ((String.utf8EncodeChar c).map UInt8.toNat ++ rest) =
      c :: decodeUtf8 fuel rest := by
  have hvalid : c.val.toNat < 0xD800 ∨ 0xDFFF < c.val.toNat ∧ c.val.toNat < 0x110000 := c.valid
  have hchar : Char.ofNat c.val.toNat = c := Char.ofNat_toNat c
  unfold String.utf8EncodeChar
  generalize c.val.toNat = v at hvalid hchar
  dsimp only
  by_cases hone : v ≤ 0x7F
  · rw [if_pos hone, List.map_singleton, List.singleton_append, byte_toNat (by omega), decodeUtf8,
      if_pos (by omega), hchar]
  by_cases htwo : v ≤ 0x7FF
  · have hmask : v / 64 % 32 + 192 &&& 0x1F = v / 64 := by
      rw [Nat.and_two_pow_sub_one_eq_mod _ 5]
      omega
    rw [if_neg hone, if_pos htwo]
    simp only [List.map_cons, List.map_nil, List.cons_append, List.nil_append]
    rw [byte_toNat (by omega), byte_toNat (by omega),
      decodeUtf8_lead fuel (by omega) (utf8Lead_two (by omega))
        (by rw [utf8Tail_cons (by omega), utf8Tail_zero]) rfl]
    simp only [beq_self_eq_true, if_true, hmask, List.foldl_cons, List.foldl_nil]
    have hcode : 64 * (v / 64) + (v % 64 + 128 - 0x80) = v := by omega
    rw [hcode, hchar]
  by_cases hthree : v ≤ 0xFFFF
  · have hmask : v / 4096 % 16 + 224 &&& 0x0F = v / 4096 := by
      rw [Nat.and_two_pow_sub_one_eq_mod _ 4]
      omega
    rw [if_neg hone, if_neg htwo, if_pos hthree]
    simp only [List.map_cons, List.map_nil, List.cons_append, List.nil_append]
    rw [byte_toNat (by omega), byte_toNat (by omega), byte_toNat (by omega),
      decodeUtf8_lead fuel (by omega) (utf8Lead_three (by omega))
        (by rw [utf8Tail_cons (by split <;> split <;> omega), utf8Tail_cons (by omega),
          utf8Tail_zero]) rfl]
    simp only [Nat.reduceBEq, if_false, if_true, Bool.false_eq_true, hmask, List.foldl_cons,
      List.foldl_nil]
    have hcode : 64 * (64 * (v / 4096) + (v / 64 % 64 + 128 - 0x80)) + (v % 64 + 128 - 0x80) = v := by
      omega
    rw [hcode, hchar]
  · have hmask : v / 262144 % 8 + 240 &&& 0x07 = v / 262144 := by
      rw [Nat.and_two_pow_sub_one_eq_mod _ 3]
      omega
    rw [if_neg hone, if_neg htwo, if_neg hthree]
    simp only [List.map_cons, List.map_nil, List.cons_append, List.nil_append]
    rw [byte_toNat (by omega), byte_toNat (by omega), byte_toNat (by omega), byte_toNat (by omega),
      decodeUtf8_lead fuel (by omega) (utf8Lead_four (by omega))
        (by rw [utf8Tail_cons (by split <;> split <;> omega), utf8Tail_cons (by omega),
          utf8Tail_cons (by omega), utf8Tail_zero]) rfl]
    simp only [Nat.reduceBEq, if_false, Bool.false_eq_true, hmask, List.foldl_cons,
      List.foldl_nil]
    have hcode : 64 * (64 * (64 * (v / 262144) + (v / 4096 % 64 + 128 - 0x80)) +
        (v / 64 % 64 + 128 - 0x80)) + (v % 64 + 128 - 0x80) = v := by
      omega
    rw [hcode, hchar]

def decodeBytes (bytes : List Nat) : Text := decodeUtf8 bytes.length bytes

theorem utf8Tail_rest (n lo hi : Nat) (bytes : List Nat) :
    (utf8Tail n lo hi bytes).2.length ≤ bytes.length := by
  induction n generalizing lo hi bytes with
  | zero => simp [utf8Tail]
  | succ n ih =>
      cases bytes with
      | nil => simp [utf8Tail]
      | cons b bytes =>
          rw [utf8Tail]
          split
          · have hrest := ih 0x80 0xBF bytes
            simp only [List.length_cons]
            omega
          · simp

theorem decodeUtf8_fuel {bytes : List Nat} {fuel : Nat} (h : bytes.length ≤ fuel) :
    decodeUtf8 fuel bytes = decodeBytes bytes := by
  have hany : ∀ f g (bytes : List Nat), bytes.length ≤ f → bytes.length ≤ g →
      decodeUtf8 f bytes = decodeUtf8 g bytes := by
    intro f
    induction f with
    | zero =>
        intro g bytes hf _
        obtain rfl := List.eq_nil_of_length_eq_zero (Nat.le_zero.mp hf)
        cases g <;> rfl
    | succ f ih =>
        intro g bytes hf hg
        cases bytes with
        | nil => cases g <;> rfl
        | cons b bytes =>
            rw [List.length_cons] at hf hg
            obtain ⟨g, rfl⟩ : ∃ less, g = less + 1 := ⟨g - 1, by omega⟩
            rw [decodeUtf8, decodeUtf8, ih g bytes (by omega) (by omega)]
            cases hlead : utf8Lead b with
            | none => rfl
            | some lead =>
                obtain ⟨n, lo, hi⟩ := lead
                have hrest := utf8Tail_rest n lo hi bytes
                dsimp only
                rw [ih g (utf8Tail n lo hi bytes).2 (by omega) (by omega)]
  exact hany _ _ bytes h le_rfl

theorem decodeBytes_cons (b : Nat) (bytes : List Nat) :
    decodeBytes (b :: bytes) =
      if b < 0x80 then Char.ofNat b :: decodeBytes bytes
      else
        match utf8Lead b with
        | none => '\uFFFD' :: decodeBytes bytes
        | some (n, lo, hi) =>
            let (tail, rest) := utf8Tail n lo hi bytes
            let mask := if n == 1 then 0x1F else if n == 2 then 0x0F else 0x07
            if tail.length == n then
              Char.ofNat (tail.foldl (fun v t => 64 * v + (t - 0x80)) (b &&& mask)) ::
                decodeBytes rest
            else '\uFFFD' :: decodeBytes rest := by
  rw [decodeBytes, List.length_cons, decodeUtf8]
  cases hlead : utf8Lead b with
  | none => rfl
  | some lead =>
      have hrest := utf8Tail_rest lead.1 lead.2.1 lead.2.2 bytes
      dsimp only
      rw [decodeUtf8_fuel hrest]
      rfl

/-- The bytes do not go on with a character that is not finished. -/
def StartsChar (bytes : List Nat) : Prop := ∀ t ∈ bytes.head?, ¬(0x80 ≤ t ∧ t ≤ 0xBF)

theorem utf8Tail_append {n lo hi : Nat} (hlo : 0x80 ≤ lo) (hhi : hi ≤ 0xBF) (a : List Nat)
    {b : List Nat} (hb : StartsChar b) :
    utf8Tail n lo hi (a ++ b) = ((utf8Tail n lo hi a).1, (utf8Tail n lo hi a).2 ++ b) := by
  induction n generalizing lo hi a with
  | zero => simp [utf8Tail]
  | succ n ih =>
      cases a with
      | nil =>
          cases b with
          | nil => simp [utf8Tail]
          | cons t b =>
              have ht := hb t rfl
              have hout : ¬(decide (lo ≤ t) && decide (t ≤ hi)) = true := by
                simp only [Bool.and_eq_true, decide_eq_true_eq]
                omega
              rw [List.nil_append, utf8Tail, if_neg hout]
              rfl
      | cons t a =>
          rw [List.cons_append, utf8Tail, utf8Tail]
          split
          · rw [ih (by omega) (by omega) a]
          · rfl

theorem utf8Lead_range {b n lo hi : Nat} (h : utf8Lead b = some (n, lo, hi)) :
    0x80 ≤ lo ∧ hi ≤ 0xBF := by
  unfold utf8Lead at h
  repeat' split at h
  all_goals
    cases h
  all_goals decide

/-- Bytes are decoded part by part, if no character goes over the end of a part. -/
theorem decodeBytes_append (a : List Nat) {b : List Nat} (hb : StartsChar b) :
    decodeBytes (a ++ b) = decodeBytes a ++ decodeBytes b := by
  induction hlength : a.length using Nat.strong_induction_on generalizing a with
  | _ size ih =>
      cases a with
      | nil => rfl
      | cons t a =>
          rw [List.length_cons] at hlength
          have hrest := ih a.length (by omega) a rfl
          rw [List.cons_append, decodeBytes_cons, decodeBytes_cons, hrest]
          split
          · rfl
          · cases hlead : utf8Lead t with
            | none => rfl
            | some lead =>
                obtain ⟨n, lo, hi⟩ := lead
                obtain ⟨hlo, hhi⟩ := utf8Lead_range hlead
                have hle := utf8Tail_rest n lo hi a
                dsimp only
                rw [utf8Tail_append hlo hhi a hb]
                dsimp only
                rw [ih _ (by omega) (utf8Tail n lo hi a).2 rfl]
                split <;> rfl

theorem decodeBytes_char (c : Char) (rest : List Nat) :
    decodeBytes ((String.utf8EncodeChar c).map UInt8.toNat ++ rest) = c :: decodeBytes rest := by
  have hlength : 0 < (String.utf8EncodeChar c).length :=
    List.length_pos_iff.mpr String.utf8EncodeChar_ne_nil
  have hfuel : (((String.utf8EncodeChar c).map UInt8.toNat ++ rest).length - 1) + 1 =
      ((String.utf8EncodeChar c).map UInt8.toNat ++ rest).length := by
    rw [List.length_append, List.length_map]
    omega
  rw [decodeBytes, ← hfuel, decodeUtf8_char, decodeUtf8_fuel]
  rw [List.length_append, List.length_map]
  omega

theorem startsChar_char (c : Char) (rest : List Nat) :
    StartsChar ((String.utf8EncodeChar c).map UInt8.toNat ++ rest) := by
  have hvalid : c.val.toNat < 0xD800 ∨ 0xDFFF < c.val.toNat ∧ c.val.toNat < 0x110000 := c.valid
  unfold String.utf8EncodeChar
  generalize c.val.toNat = v at hvalid
  dsimp only
  intro t ht
  split at ht
  · rw [List.map_singleton, List.singleton_append, List.head?_cons, byte_toNat (by omega)] at ht
    cases ht
    omega
  · split at ht
    · rw [List.map_cons, List.cons_append, List.head?_cons, byte_toNat (by omega)] at ht
      cases ht
      omega
    · split at ht
      · rw [List.map_cons, List.cons_append, List.head?_cons, byte_toNat (by omega)] at ht
        cases ht
        omega
      · rw [List.map_cons, List.cons_append, List.head?_cons, byte_toNat (by omega)] at ht
        cases ht
        omega

theorem decodeBytes_encode (s : Text) : decodeBytes (encodeUtf8 s) = s := by
  induction s with
  | nil => rfl
  | cons c s ih =>
      rw [encodeUtf8, List.flatMap_cons, decodeBytes_char]
      exact congrArg (c :: ·) ih

theorem encodeUtf8_injective : Function.Injective encodeUtf8 :=
  Function.LeftInverse.injective decodeBytes_encode

theorem upperHexDigit_hex : ∀ n < 16, isHex (upperHexDigit n) = true ∧
    hexValue (upperHexDigit n) = n := by
  decide

theorem unquoteToBytes_plain {c : Char} (h : c ≠ '%') (rest : Text) :
    unquoteToBytes (c :: rest) =
      (String.utf8EncodeChar c).map UInt8.toNat ++ unquoteToBytes rest := by
  rw [unquoteToBytes]
  rintro a b rest' heq -
  exact h heq

theorem unquoteToBytes_percent (b : UInt8) (rest : Text) :
    unquoteToBytes (percent b ++ rest) = b.toNat :: unquoteToBytes rest := by
  have hb : b.toNat < 256 := b.toNat_lt
  obtain ⟨hhigh, hhighValue⟩ := upperHexDigit_hex (b.toNat / 16) (by omega)
  obtain ⟨hlow, hlowValue⟩ := upperHexDigit_hex (b.toNat % 16) (by omega)
  have hvalue : 16 * (b.toNat / 16) + b.toNat % 16 = b.toNat := by omega
  rw [percent, List.cons_append, List.cons_append, List.cons_append, List.nil_append,
    unquoteToBytes, hhigh, hlow, hhighValue, hlowValue, hvalue]
  rfl

theorem unquoteToBytes_percents (bytes : List UInt8) (rest : Text) :
    unquoteToBytes (bytes.flatMap percent ++ rest) =
      bytes.map UInt8.toNat ++ unquoteToBytes rest := by
  induction bytes with
  | nil => rfl
  | cons b bytes ih =>
      rw [List.flatMap_cons, List.append_assoc, unquoteToBytes_percent, ih, List.map_cons,
        List.cons_append]

theorem unquoteToBytes_append (s : Text) {c : Char} (hc : isHex c = false) (rest : Text) :
    unquoteToBytes (s ++ c :: rest) = unquoteToBytes s ++ unquoteToBytes (c :: rest) := by
  fun_induction unquoteToBytes s with
  | case1 a b s hhex ih =>
      rw [List.cons_append, List.cons_append, List.cons_append, unquoteToBytes, if_pos hhex, ih]
      rfl
  | case2 a b s hhex ih =>
      rw [List.cons_append, List.cons_append, List.cons_append, unquoteToBytes, if_neg hhex,
        ← List.cons_append, ← List.cons_append, ih]
      rfl
  | case3 d s hescape ih =>
      have hstep : unquoteToBytes (d :: (s ++ c :: rest)) =
          (String.utf8EncodeChar d).map UInt8.toNat ++ unquoteToBytes (s ++ c :: rest) := by
        by_cases hpercent : d = '%'
        · subst hpercent
          cases s with
          | nil =>
              cases rest with
              | nil => rfl
              | cons e rest => 
                rw [List.nil_append, unquoteToBytes, hc]
                rfl
          | cons a s =>
              cases s with
              | nil =>
                rw [List.cons_append, List.nil_append, unquoteToBytes, hc, Bool.and_false]
                rfl
              | cons b s => exact absurd rfl (hescape a b s rfl)
        · exact unquoteToBytes_plain hpercent _
      rw [List.cons_append, hstep, ih, List.append_assoc]
  | case4 => rfl

theorem isHex_ascii {c : Char} (h : isHex c = true) : c.toNat < 128 := by
  simp only [isHex, Bool.or_eq_true, Bool.and_eq_true, decide_eq_true_eq] at h
  rcases h with (hdigit | ⟨-, hle⟩) | ⟨-, hle⟩
  · rw [Text.isDigit_iff] at hdigit
    omega
  · exact lt_of_le_of_lt hle (by decide)
  · exact lt_of_le_of_lt hle (by decide)

theorem unquoteRuns_eq (run s : Text) :
    unquoteRuns run s = decodeBytes (unquoteToBytes (run.reverse ++ s)) := by
  induction s generalizing run with
  | nil =>
      rw [unquoteRuns, List.append_nil]
      rfl
  | cons c s ih =>
      rw [unquoteRuns]
      split
      · rw [ih, List.reverse_cons, List.append_assoc, List.singleton_append]
      · rename_i hascii
        have hhex : isHex c = false := by
          rw [← Bool.not_eq_true]
          exact fun hhex => hascii (isHex_ascii hhex)
        have hpercent : c ≠ '%' := by
          rintro rfl
          exact hascii (by decide)
        rw [ih, unquoteToBytes_append _ hhex, unquoteToBytes_plain hpercent,
          decodeBytes_append _ (startsChar_char c _), decodeBytes_char]
        rfl

/-- `unquote` decodes the bytes of `unquote_to_bytes`. -/
theorem unquote_eq (s : Text) : unquote s = decodeBytes (unquoteToBytes s) := by
  unfold unquote
  split
  · exact unquoteRuns_eq [] s
  · rename_i hnone
    -- text without an escape is its own bytes
    have hbytes : unquoteToBytes s = encodeUtf8 s := by
      have hpercent : '%' ∉ s := by simpa using hnone
      clear hnone
      induction s with
      | nil => rfl
      | cons c s ih =>
          have hne : c ≠ '%' := fun heq => hpercent (heq ▸ List.mem_cons_self)
          rw [unquoteToBytes_plain hne, ih fun hmem => hpercent (List.mem_cons_of_mem _ hmem)]
          rfl
    rw [hbytes, decodeBytes_encode]

def plusToSpace (c : Char) : Char := if c == '+' then ' ' else c

theorem alwaysSafe_plain {c : Char} (h : isAlwaysSafe c = true) :
    c.toNat < 128 ∧ c ≠ '%' ∧ c ≠ '+' ∧ c ≠ '&' ∧ c ≠ '=' := by
  have hne {d : Char} (hd : isAlwaysSafe d = false) : c ≠ d := by
    rintro rfl
    rw [hd] at h
    cases h
  refine ⟨?_, hne (by decide), hne (by decide), hne (by decide), hne (by decide)⟩
  simp only [isAlwaysSafe, Bool.or_eq_true, beq_iff_eq] at h
  rcases h with (((halnum | rfl) | rfl) | rfl) | rfl
  · exact alphanum_ascii halnum
  all_goals decide

def quoteChar (c : Char) : Text :=
  if isAlwaysSafe c then [c]
  else if c == ' ' then ['+']
  else (String.utf8EncodeChar c).flatMap percent

theorem percent_plain (b : UInt8) {c : Char} (h : c ∈ percent b) : c = '%' ∨ isAlwaysSafe c = true := by
  have hb : b.toNat < 256 := b.toNat_lt
  simp only [percent, List.mem_cons, List.not_mem_nil, or_false] at h
  rcases h with rfl | rfl | rfl
  · exact .inl rfl
  · exact .inr (upperHexDigit_safe _ (by omega))
  · exact .inr (upperHexDigit_safe _ (by omega))

theorem quoteChar_cases (c : Char) :
    (isAlwaysSafe c = true ∧ quoteChar c = [c]) ∨ (c = ' ' ∧ quoteChar c = ['+']) ∨
      (quoteChar c = (String.utf8EncodeChar c).flatMap percent ∧
        ∀ d ∈ quoteChar c, d = '%' ∨ isAlwaysSafe d = true) := by
  unfold quoteChar
  by_cases hsafe : isAlwaysSafe c = true
  · exact .inl ⟨hsafe, if_pos hsafe⟩
  by_cases hspace : (c == ' ') = true
  · exact .inr (.inl ⟨beq_iff_eq.mp hspace, by rw [if_neg hsafe, if_pos hspace]⟩)
  · rw [if_neg hsafe, if_neg hspace]
    refine .inr (.inr ⟨rfl, fun d hd => ?_⟩)
    obtain ⟨b, -, hb⟩ := List.mem_flatMap.mp hd
    exact percent_plain b hb

theorem mem_quotePlus {s : Text} {d : Char} (h : d ∈ quotePlus s) :
    d = '%' ∨ d = '+' ∨ isAlwaysSafe d = true := by
  obtain ⟨c, -, hd⟩ := List.mem_flatMap.mp h
  change d ∈ quoteChar c at hd
  rcases quoteChar_cases c with ⟨hsafe, heq⟩ | ⟨-, heq⟩ | ⟨-, hchars⟩
  · rw [heq, List.mem_singleton] at hd
    exact .inr (.inr (hd ▸ hsafe))
  · rw [heq, List.mem_singleton] at hd
    exact .inr (.inl hd)
  · exact (hchars d hd).imp_right .inr

theorem unquoteToBytes_quoteChar (c : Char) (rest : Text) :
    unquoteToBytes ((quoteChar c).map plusToSpace ++ rest) =
      (String.utf8EncodeChar c).map UInt8.toNat ++ unquoteToBytes rest := by
  have hkept {d : Char} (hd : d = '%' ∨ isAlwaysSafe d = true) : plusToSpace d = d := by
    have hne : d ≠ '+' := by
      rcases hd with rfl | hd
      · decide
      · exact (alwaysSafe_plain hd).2.2.1
    simp [plusToSpace, hne]
  rcases quoteChar_cases c with ⟨hsafe, heq⟩ | ⟨rfl, heq⟩ | ⟨heq, hchars⟩
  · have hpercent := (alwaysSafe_plain hsafe).2.1
    rw [heq, List.map_singleton, hkept (.inr hsafe), List.singleton_append,
      unquoteToBytes_plain hpercent]
  · have hplus : plusToSpace '+' = ' ' := rfl
    rw [heq, List.map_singleton, hplus, List.singleton_append, unquoteToBytes_plain (by decide)]
  · have hmap : (quoteChar c).map plusToSpace = quoteChar c :=
      (List.map_congr_left fun d hd => hkept (hchars d hd)).trans (List.map_id _)
    rw [hmap, heq, unquoteToBytes_percents]

theorem unquoteToBytes_quotePlus (s rest : Text) :
    unquoteToBytes ((quotePlus s).map plusToSpace ++ rest) =
      encodeUtf8 s ++ unquoteToBytes rest := by
  induction s with
  | nil => rfl
  | cons c s ih =>
      have hcons : quotePlus (c :: s) = quoteChar c ++ quotePlus s := rfl
      rw [hcons, List.map_append, List.append_assoc, unquoteToBytes_quoteChar, ih,
        ← List.append_assoc]
      rfl

/-- The bytes of a part of a query; a plus sign stands for a space. -/
def partBytes (s : Text) : List Nat := unquoteToBytes (s.map plusToSpace)

theorem unquotePlus_eq (s : Text) : unquotePlus s = decodeBytes (partBytes s) := unquote_eq _

theorem partBytes_quotePlus (s : Text) : partBytes (quotePlus s) = encodeUtf8 s := by
  have hall := unquoteToBytes_quotePlus s []
  rwa [List.append_nil, unquoteToBytes, List.append_nil] at hall

theorem unquotePlus_quotePlus (s : Text) : unquotePlus (quotePlus s) = s := by
  rw [unquotePlus_eq, partBytes_quotePlus, decodeBytes_encode]

theorem separator_not_quoted (s : Text) : '&' ∉ quotePlus s ∧ '=' ∉ quotePlus s := by
  constructor
  · intro hmem
    rcases mem_quotePlus hmem with heq | heq | hsafe
    · exact absurd heq (by decide)
    · exact absurd heq (by decide)
    · exact (alwaysSafe_plain hsafe).2.2.2.1 rfl
  · intro hmem
    rcases mem_quotePlus hmem with heq | heq | hsafe
    · exact absurd heq (by decide)
    · exact absurd heq (by decide)
    · exact (alwaysSafe_plain hsafe).2.2.2.2 rfl

/-- A parameter as `urlencode` writes it. -/
def encodeParam (p : Text × Text) : Text := quotePlus p.1 ++ ['='] ++ quotePlus p.2

theorem partition_encodeParam (p : Text × Text) :
    Text.partition '=' (encodeParam p) = (quotePlus p.1, true, quotePlus p.2) := by
  rw [encodeParam, List.append_assoc, List.singleton_append,
    Text.partition_append (separator_not_quoted p.1).2]

theorem splitOn_urlencode {params : List (Text × Text)} (h : params ≠ []) :
    (urlencode params).splitOn '&' = params.map encodeParam := by
  have hjoin : urlencode params = ['&'].intercalate (params.map encodeParam) := rfl
  rw [hjoin, List.splitOn_intercalate '&' ?_ (by simpa using h)]
  intro part hpart
  obtain ⟨p, -, rfl⟩ := List.mem_map.mp hpart
  have hname := (separator_not_quoted p.1).1
  have hvalue := (separator_not_quoted p.2).1
  simp [encodeParam, hname, hvalue]

/-- The parts of a query that `parse_qsl` decodes. -/
def queryParts (query : Text) : List (Text × Text) :=
  ((query.splitOn '&').filter fun part => !part.isEmpty).map fun part =>
    ((Text.partition '=' part).1, (Text.partition '=' part).2.2)

theorem parseQsl_eq (query : Text) :
    parseQsl query = (queryParts query).map (Prod.map unquotePlus unquotePlus) := by
  rw [queryParts, List.map_map]
  rfl

theorem queryParts_urlencode (params : List (Text × Text)) :
    queryParts (urlencode params) = params.map (Prod.map quotePlus quotePlus) := by
  cases params with
  | nil => rfl
  | cons p params =>
      have hkept : ((p :: params).map encodeParam).filter (fun part => !part.isEmpty) =
          (p :: params).map encodeParam := by
        rw [List.filter_eq_self]
        intro part hpart
        obtain ⟨q, -, rfl⟩ := List.mem_map.mp hpart
        simp [encodeParam]
      rw [queryParts, splitOn_urlencode (List.cons_ne_nil p params), hkept, List.map_map]
      refine List.map_congr_left fun q _ => ?_
      simp only [Function.comp_apply, partition_encodeParam, Prod.map]

/-- Every parameter that was encoded is read back. -/
theorem parseQsl_urlencode (params : List (Text × Text)) : parseQsl (urlencode params) = params := by
  rw [parseQsl_eq, queryParts_urlencode, List.map_map]
  refine (List.map_congr_left fun q _ => ?_).trans (List.map_id _)
  simp [Prod.map, unquotePlus_quotePlus]

/-- The parameters of a query, as the bytes they stand for. -/
def queryBytes (query : Text) : List (List Nat × List Nat) :=
  (queryParts query).map (Prod.map partBytes partBytes)

theorem parseQsl_bytes (query : Text) :
    parseQsl query = (queryBytes query).map (Prod.map decodeBytes decodeBytes) := by
  rw [parseQsl_eq, queryBytes, List.map_map]
  refine List.map_congr_left fun q _ => ?_
  simp [Prod.map, unquotePlus_eq]

def paramBytes (p : Text × Text) : List Nat × List Nat := (encodeUtf8 p.1, encodeUtf8 p.2)

theorem queryBytes_urlencode (params : List (Text × Text)) :
    queryBytes (urlencode params) = params.map paramBytes := by
  rw [queryBytes, queryParts_urlencode, List.map_map]
  refine List.map_congr_left fun q _ => ?_
  simp [Prod.map, partBytes_quotePlus, paramBytes]

/-- The bytes are the encoding of a text. -/
def IsUtf8 (bytes : List Nat) : Prop := encodeUtf8 (decodeBytes bytes) = bytes

theorem isUtf8_encode (s : Text) : IsUtf8 (encodeUtf8 s) := by rw [IsUtf8, decodeBytes_encode]

theorem decodeBytes_eq_nil {bytes : List Nat} : decodeBytes bytes = [] ↔ bytes = [] := by
  constructor
  · intro hempty
    cases bytes with
    | nil => rfl
    | cons b bytes =>
        rw [decodeBytes_cons] at hempty
        split at hempty
        · cases hempty
        · split at hempty
          · cases hempty
          · dsimp only at hempty
            split at hempty
            · cases hempty
            · cases hempty
  · rintro rfl
    rfl

theorem unquoteToBytes_eq_nil {s : Text} : unquoteToBytes s = [] ↔ s = [] := by
  constructor
  · intro hempty
    unfold unquoteToBytes at hempty
    split at hempty
    · split at hempty <;> cases hempty
    · simp at hempty
    · rfl
  · rintro rfl
    rfl

theorem unquotePlus_eq_nil {s : Text} : unquotePlus s = [] ↔ s = [] := by
  rw [unquotePlus_eq, decodeBytes_eq_nil, partBytes, unquoteToBytes_eq_nil, List.map_eq_nil_iff]

theorem parseQslValues_eq (query : Text) :
    parseQslValues query = (parseQsl query).filter fun p => !p.2.isEmpty := by
  unfold parseQslValues parseQsl
  rw [List.filter_map, List.filter_filter]
  congr 1
  apply List.filter_congr
  intro part _
  have hvalue : (unquotePlus (Text.partition '=' part).2.2).isEmpty =
      (Text.partition '=' part).2.2.isEmpty := by
    rw [Bool.eq_iff_iff, List.isEmpty_iff, List.isEmpty_iff, unquotePlus_eq_nil]
  simp only [Function.comp_apply, hvalue]
  cases part with
  | nil => rfl
  | cons c part => simp

end LeadPipe.Urllib
