import ShaderPipeline.Compile
import ShaderPipeline.Proofs.Words

/-! An output reaches the sink once the compile has succeeded, as the bytes that encode it or as a
front of those. -/

namespace ShaderPipeline

def Output.encoding : Output → Bytes
  | .binary words => Words.encode words
  | .disassembly text | .preprocessed text => text.toUTF8.data.toList

lemma Utf8.encode_eq (s : String) : encode s = s.toUTF8.data.toList := by
  have hutf8 : s.toUTF8 = (encode s).toByteArray := by
    conv_lhs => rw [← String.ofList_toList (s := s)]
    exact String.toByteArray_ofList
  rw [hutf8]
  exact (List.data_toByteArray ▸ List.toList_toArray).symm

lemma Output.flatten_chunks (o : Output) : o.chunks.flatten = o.encoding := by
  cases o with
  | binary words => rfl
  | disassembly text | preprocessed text =>
    rw [chunks, encoding, List.flatten_singleton, Utf8.encode_eq]

namespace Sink

variable {k : Sink} {bs : Bytes}

def HasRoomFor (k : Sink) (bs : Bytes) : Prop :=
  ∀ n, k.room = some n → bs.length ≤ n

lemma write_bounded (accepted : Bytes) (n : ℕ) (refusal : SystemError) (bs : Bytes) :
    write ⟨accepted, some n, refusal⟩ bs = (if bs.length ≤ n then .ok () else .error refusal,
      ⟨accepted ++ bs.take n, some (n - bs.length), refusal⟩) :=
  rfl

lemma write_of_hasRoomFor (h : k.HasRoomFor bs) : k.write bs =
    (.ok (), { k with accepted := k.accepted ++ bs, room := k.room.map (· - bs.length) }) := by
  obtain ⟨accepted, room, refusal⟩ := k
  cases room with
  | none => rfl
  | some n =>
    have hn : bs.length ≤ n := h n rfl
    rw [write_bounded, if_pos hn, List.take_of_length_le hn]
    rfl

lemma write_of_not_hasRoomFor (h : ¬ k.HasRoomFor bs) : ∃ n, k.room = some n ∧ n < bs.length ∧
    k.write bs =
      (.error k.refusal, { k with accepted := k.accepted ++ bs.take n, room := some 0 }) := by
  obtain ⟨accepted, room, refusal⟩ := k
  simp only [HasRoomFor, not_forall, not_le] at h
  obtain ⟨n, rfl, hn⟩ := h
  refine ⟨n, rfl, hn, ?_⟩
  rw [write_bounded, if_neg (by omega), Nat.sub_eq_zero_of_le hn.le]

lemma write_append (h : k.HasRoomFor bs) (more : Bytes) :
    (k.write bs).2.write more = k.write (bs ++ more) := by
  obtain ⟨accepted, room, refusal⟩ := k
  cases room with
  | none => simp [write]
  | some n =>
    have hn : bs.length ≤ n := h n rfl
    have hroom : more.length ≤ n - bs.length ↔ (bs ++ more).length ≤ n := by
      rw [List.length_append]
      omega
    rw [write_bounded, write_bounded, write_bounded, List.take_append, List.take_of_length_le hn,
      List.append_assoc, Nat.sub_sub, ← List.length_append]
    exact Prod.ext (if_congr hroom rfl rfl) rfl

lemma write_append_of_not (h : ¬ k.HasRoomFor bs) (more : Bytes) :
    k.write (bs ++ more) = k.write bs := by
  obtain ⟨n, hroom, hn, hwrite⟩ := write_of_not_hasRoomFor h
  have hlong : ¬ k.HasRoomFor (bs ++ more) := by
    intro hk
    have hlength := hk n hroom
    rw [List.length_append] at hlength
    omega
  obtain ⟨m, hm, -, hwrite'⟩ := write_of_not_hasRoomFor hlong
  obtain rfl : n = m := Option.some.inj (hroom.symm.trans hm)
  rw [hwrite, hwrite', List.take_append_of_le_length hn.le]

lemma writeAll_eq (k : Sink) (pieces : List Bytes) :
    k.writeAll pieces = k.write pieces.flatten := by
  induction pieces generalizing k with
  | nil =>
    obtain ⟨accepted, room, refusal⟩ := k
    cases room <;> simp [writeAll, write]
  | cons bs rest ih =>
    rw [writeAll, List.flatten_cons]
    by_cases h : k.HasRoomFor bs
    · rw [← write_append h, write_of_hasRoomFor h]
      exact ih _
    · obtain ⟨n, -, -, hwrite⟩ := write_of_not_hasRoomFor h
      rw [write_append_of_not h, hwrite]

end Sink

inductive Offer
  | taken (n : Nat)
  | interrupted
  | refused (e : SystemError)

structure Writer (τ : Type) where
  offer : τ → Bytes → Offer × τ

namespace Writer

variable {τ : Type}

inductive Puts (writer : Writer τ) : τ → Bytes → Except SystemError Unit → Bytes → τ → Prop
  | done (a : τ) : Puts writer a [] (.ok ()) [] a
  | part {a b c : τ} {bs taken : Bytes} {n : Nat} {r : Except SystemError Unit} : bs ≠ [] →
      writer.offer a bs = (.taken n, b) → 0 < n → n ≤ bs.length →
        Puts writer b (bs.drop n) r taken c →
      Puts writer a bs r (bs.take n ++ taken) c
  | stuck {a b : τ} {bs : Bytes} : bs ≠ [] → writer.offer a bs = (.taken 0, b) →
      Puts writer a bs (.error (.other "failed to write whole buffer")) [] b
  | interrupted {a b c : τ} {bs taken : Bytes} {r : Except SystemError Unit} : bs ≠ [] →
      writer.offer a bs = (.interrupted, b) → Puts writer b bs r taken c →
        Puts writer a bs r taken c
  | refused {a b : τ} {bs : Bytes} {e : SystemError} :
      bs ≠ [] → writer.offer a bs = (.refused e, b) →
      Puts writer a bs (.error e) [] b

inductive PutsAll (writer : Writer τ) : τ → List Bytes → Except SystemError Unit → Bytes → τ → Prop
  | done (a : τ) : PutsAll writer a [] (.ok ()) [] a
  | next {a b c : τ} {bs taken more : Bytes} {rest : List Bytes} {r : Except SystemError Unit} :
      Puts writer a bs (.ok ()) taken b → PutsAll writer b rest r more c →
      PutsAll writer a (bs :: rest) r (taken ++ more) c
  | failed {a b : τ} {bs taken : Bytes} {rest : List Bytes} {e : SystemError} :
      Puts writer a bs (.error e) taken b → PutsAll writer a (bs :: rest) (.error e) taken b

variable {writer : Writer τ} {a b : τ} {bs taken : Bytes} {r : Except SystemError Unit}

lemma Puts.exists_rest (h : writer.Puts a bs r taken b) :
    ∃ rest, bs = taken ++ rest ∧ (r = .ok () ↔ rest = []) := by
  induction h with
  | done => exact ⟨[], rfl, iff_of_true rfl rfl⟩
  | @part _ _ _ bs _ n _ _ _ _ _ _ ih =>
    obtain ⟨rest, hrest, hr⟩ := ih
    exact ⟨rest, by rw [List.append_assoc, ← hrest, List.take_append_drop], hr⟩
  | stuck hne => exact ⟨_, rfl, iff_of_false nofun hne⟩
  | interrupted _ _ _ ih => exact ih
  | refused hne => exact ⟨_, rfl, iff_of_false nofun hne⟩

lemma PutsAll.exists_rest {pieces : List Bytes} (h : writer.PutsAll a pieces r taken b) :
    ∃ rest, pieces.flatten = taken ++ rest ∧ (r = .ok () ↔ rest = []) := by
  induction h with
  | done => exact ⟨[], rfl, iff_of_true rfl rfl⟩
  | next hputs _ ih =>
    obtain ⟨front, hfront, hok⟩ := hputs.exists_rest
    obtain rfl := hok.mp rfl
    obtain ⟨rest, hrest, hr⟩ := ih
    exact ⟨rest, by rw [List.flatten_cons, hfront, hrest, List.append_nil, List.append_assoc], hr⟩
  | @failed _ _ _ taken rest _ hputs =>
    obtain ⟨back, hback, hr⟩ := hputs.exists_rest
    refine ⟨back ++ rest.flatten, by rw [List.flatten_cons, hback, List.append_assoc],
      iff_of_false nofun ?_⟩
    intro hnil
    exact absurd (hr.mpr (List.append_eq_nil_iff.mp hnil).1) nofun

lemma PutsAll.exists_sink {pieces : List Bytes} (h : writer.PutsAll a pieces r taken b) :
    ∃ sink : Sink, sink.accepted = [] ∧ (sink.writeAll pieces).1 = r ∧
    (sink.writeAll pieces).2.accepted = taken := by
  obtain ⟨rest, hrest, hr⟩ := h.exists_rest
  cases r with
  | ok u =>
    obtain rfl := hr.mp rfl
    refine ⟨{}, rfl, ?_⟩
    rw [Sink.writeAll_eq, hrest, List.append_nil]
    exact ⟨rfl, List.nil_append _⟩
  | error e =>
    have hne : rest ≠ [] := fun hnil => absurd (hr.mpr hnil) nofun
    have hfull : ¬ Sink.HasRoomFor ⟨[], some taken.length, e⟩ (taken ++ rest) := by
      intro hroom
      have hlength := hroom _ rfl
      have hpos := List.length_pos_iff.mpr hne
      rw [List.length_append] at hlength
      omega
    obtain ⟨n, hn, -, hwrite⟩ := Sink.write_of_not_hasRoomFor hfull
    obtain rfl : taken.length = n := Option.some.inj hn
    refine ⟨⟨[], some taken.length, e⟩, rfl, ?_⟩
    rw [Sink.writeAll_eq, hrest, hwrite, List.take_left']
    · exact ⟨rfl, rfl⟩
    · rfl

end Writer

namespace Compile

variable {ω υ π τ : Type}

/-- Nothing of a compile that fails is written. What is written of one that succeeds is the encoding
of its output, or a front of it where the sink refuses the rest. -/
theorem written_on_success :
    (∀ ws, Words.decode? (Words.encode ws) = some ws) ∧
    (∀ bs, ((Words.decode? bs).isSome ↔ 4 ∣ bs.length) ∧ ∀ ws, Words.decode? bs = some ws →
      Words.encode ws = bs) ∧
    (∀ w : UInt32, Nat.ofDigits 256 ((Words.encode [w]).map UInt8.toNat) = w.toNat) ∧
    (∀ (s : Services ω υ π) (o : CompilerOptions) (shader : ShaderSource) (stage : Option Stage)
        (fallback : String → ω → Option Stage × ω) (sink : Sink) (w : ω),
      let compiled := compile s o shader stage fallback w
      let written := compileTo s o shader stage fallback sink w
      written.2.2 = compiled.2 ∧
      (∀ f, compiled.1 = .error f → written.1 = .error f ∧ written.2.1 = sink) ∧
      ∀ c, compiled.1 = .ok c →
        (sink.HasRoomFor c.output.encoding →
          written.1 = .ok c ∧ written.2.1.accepted = sink.accepted ++ c.output.encoding) ∧
        (¬ sink.HasRoomFor c.output.encoding →
          written.1 = .error ⟨shader.tag, .done, .io sink.refusal, c.diagnostics⟩ ∧
          ∃ taken, written.2.1.accepted = sink.accepted ++ taken ∧ taken <+: c.output.encoding ∧
            sink.room = some taken.length)) ∧
    ∀ (writer : Writer τ) (a b : τ) (o : Output) (r : Except SystemError Unit) (taken : Bytes),
      writer.PutsAll a o.chunks r taken b → taken <+: o.encoding ∧
      (r = .ok () ↔ taken = o.encoding) ∧
        ∃ sink : Sink, sink.accepted = [] ∧ (sink.writeAll o.chunks).1 = r ∧
          (sink.writeAll o.chunks).2.accepted = taken := by
  refine ⟨Words.decode_encode, fun bs => ⟨Words.isSome_decode_iff bs, fun ws =>
    Words.encode_of_decode⟩, fun w => ?_, fun s o shader stage fallback sink w => ?_,
      fun writer a b o r taken h => ?_⟩
  · rw [Words.encode, List.flatMap_singleton, Words.ofDigits_bytesOfWord]
  rotate_left
  · obtain ⟨rest, hrest, hr⟩ := h.exists_rest
    rw [Output.flatten_chunks] at hrest
    exact ⟨⟨rest, hrest.symm⟩, by rw [hr, hrest, List.self_eq_append_right], h.exists_sink⟩
  dsimp only
  unfold compileTo
  generalize compile s o shader stage fallback w = compiled
  rcases compiled with ⟨f | c, w⟩
  · refine ⟨rfl, ?_, ?_⟩
    · rintro f ⟨⟩
      exact ⟨rfl, rfl⟩
    · rintro c ⟨⟩
  dsimp only
  rw [Sink.writeAll_eq, Output.flatten_chunks]
  by_cases h : sink.HasRoomFor c.output.encoding
  · rw [Sink.write_of_hasRoomFor h]
    refine ⟨rfl, ?_, ?_⟩
    · rintro f ⟨⟩
    · rintro c ⟨⟩
      exact ⟨fun _ => ⟨rfl, rfl⟩, fun hfull => (hfull h).elim⟩
  · obtain ⟨n, hroom, hn, hwrite⟩ := Sink.write_of_not_hasRoomFor h
    rw [hwrite]
    refine ⟨rfl, ?_, ?_⟩
    · rintro f ⟨⟩
    · rintro c ⟨⟩
      refine ⟨fun hall => (h hall).elim, fun _ => ⟨rfl, c.output.encoding.take n, rfl,
        List.take_prefix _ _, ?_⟩⟩
      rw [hroom, List.length_take_of_le hn.le]

end Compile

end ShaderPipeline
