import Mathlib.Data.List.Basic
import Mathlib.Data.Nat.Digits.Defs
import Mathlib.Tactic.GCongr
import Mathlib.Tactic.Lemma
import ShaderPipeline.Words

namespace ShaderPipeline.Words

variable {bs : Bytes} {ws : List UInt32}

lemma toNat_wordOfBytes (a b c d : UInt8) : (wordOfBytes a b c d).toNat =
    2 ^ 24 * d.toNat + (2 ^ 16 * c.toNat + (2 ^ 8 * b.toNat + a.toNat)) := by
  have ha := a.toNat_lt
  have hb := b.toNat_lt
  have hc := c.toNat_lt
  have hd := d.toNat_lt
  have hor : (wordOfBytes a b c d).toNat =
      2 ^ 24 * d.toNat ||| (2 ^ 16 * c.toNat ||| (2 ^ 8 * b.toNat ||| a.toNat)) := by
    have hshift : ∀ (n k : ℕ), n < 2 ^ 8 → k ≤ 24 → n <<< k % 2 ^ 32 = 2 ^ k * n :=
      fun n k hn hk => by
      rw [Nat.shiftLeft_eq, Nat.mul_comm, Nat.mod_eq_of_lt]
      calc 2 ^ k * n < 2 ^ k * 2 ^ 8 := by gcongr
        _ = 2 ^ (k + 8) := (pow_add 2 k 8).symm
        _ ≤ 2 ^ 32 := Nat.pow_le_pow_right (by decide) (by omega)
    have h8 : (8 : UInt32).toNat % 32 = 8 := rfl
    have h16 : (16 : UInt32).toNat % 32 = 16 := rfl
    have h24 : (24 : UInt32).toNat % 32 = 24 := rfl
    simp only [wordOfBytes, UInt32.toNat_or, UInt32.toNat_shiftLeft, UInt8.toNat_toUInt32,
      h8, h16, h24]
    rw [hshift _ _ hb (by decide), hshift _ _ hc (by decide), hshift _ _ hd (by decide),
      Nat.or_comm, Nat.or_comm (_ ||| _), Nat.or_comm a.toNat]
  rw [hor, ← Nat.two_pow_add_eq_or_of_lt ha, ← Nat.two_pow_add_eq_or_of_lt (i := 16) (by omega),
    ← Nat.two_pow_add_eq_or_of_lt (i := 24) (by omega)]

lemma toNat_bytesOfWord (w : UInt32) : (bytesOfWord w).map UInt8.toNat =
    [w.toNat % 2 ^ 8, w.toNat / 2 ^ 8 % 2 ^ 8, w.toNat / 2 ^ 16 % 2 ^ 8,
      w.toNat / 2 ^ 24 % 2 ^ 8] := by
  simp [bytesOfWord, Nat.shiftRight_eq_div_pow]

lemma ofDigits_bytesOfWord (w : UInt32) :
    Nat.ofDigits 256 ((bytesOfWord w).map UInt8.toNat) = w.toNat := by
  have hw := w.toNat_lt
  rw [toNat_bytesOfWord]
  simp only [Nat.ofDigits_cons, Nat.ofDigits_nil]
  omega

lemma wordOfBytes_bytesOfWord (w : UInt32) :
    wordOfBytes w.toUInt8 (w >>> 8).toUInt8 (w >>> 16).toUInt8 (w >>> 24).toUInt8 = w := by
  have hw := w.toNat_lt
  have hbytes := toNat_bytesOfWord w
  simp only [bytesOfWord, List.map_cons, List.map_nil, List.cons.injEq, and_true] at hbytes
  obtain ⟨ha, hb, hc, hd⟩ := hbytes
  rw [← UInt32.toNat_inj, toNat_wordOfBytes, ha, hb, hc, hd]
  omega

lemma bytesOfWord_wordOfBytes (a b c d : UInt8) :
    bytesOfWord (wordOfBytes a b c d) = [a, b, c, d] := by
  have ha := a.toNat_lt
  have hb := b.toNat_lt
  have hc := c.toNat_lt
  have hd := d.toNat_lt
  refine List.map_injective_iff.mpr (fun _ _ => UInt8.toNat_inj.mp) ?_
  rw [toNat_bytesOfWord, toNat_wordOfBytes]
  simp only [List.map_cons, List.map_nil, List.cons.injEq, and_true]
  omega

theorem decode_encode (ws : List UInt32) : decode? (encode ws) = some ws := by
  induction ws with
  | nil => rfl
  | cons w ws ih =>
    have hencode : encode (w :: ws) =
        w.toUInt8 :: (w >>> 8).toUInt8 :: (w >>> 16).toUInt8 :: (w >>> 24).toUInt8 ::
        encode ws := rfl
    rw [hencode, decode?, ih, Option.map_some, wordOfBytes_bytesOfWord]

theorem encode_of_decode (h : decode? bs = some ws) : encode ws = bs := by
  fun_induction decode? bs generalizing ws with
  | case1 =>
    obtain rfl := Option.some.inj h
    rfl
  | case2 a b c d rest ih =>
    obtain ⟨vs, hvs, rfl⟩ := Option.map_eq_some_iff.mp h
    rw [encode, List.flatMap_cons, bytesOfWord_wordOfBytes, ← encode, ih hvs]
    rfl
  | case3 => cases h

theorem isSome_decode_iff (bs : Bytes) : (decode? bs).isSome ↔ 4 ∣ bs.length := by
  fun_induction decode? bs with
  | case1 => simp
  | case2 a b c d rest ih =>
    rw [Option.isSome_map, ih]
    simp only [List.length_cons]
    omega
  | case3 bs hnil hcons =>
    rcases bs with _ | ⟨a, _ | ⟨b, _ | ⟨c, _ | ⟨d, rest⟩⟩⟩⟩
    · exact (hnil rfl).elim
    · simp
    · simp
    · simp
    · exact (hcons a b c d rest rfl).elim

end ShaderPipeline.Words
