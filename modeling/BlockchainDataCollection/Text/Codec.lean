import Mathlib.Data.Set.Function
import Mathlib.Data.List.Basic

/-!
# Exact codecs

A decoder is exact for an encoder when the texts it accepts are the encodings of
the valid values.  Both round trips follow, and two valid values have different
encodings.
-/

namespace BlockchainDataCollection.Codec

/-- A decoder accepts a text as a value exactly when it is the encoding of that
value and the value is valid. -/
structure ExactCodec (Value Text Error : Type*) where
  encode : Value → Text
  decode : Text → Except Error Value
  Valid : Value → Prop
  decode_eq_ok_iff : ∀ {text value}, decode text = .ok value ↔ Valid value ∧ encode value = text

namespace ExactCodec

variable {Value Text Error : Type*} (codec : ExactCodec Value Text Error)

theorem decode_encode {value : Value} (hvalid : codec.Valid value) :
    codec.decode (codec.encode value) = .ok value :=
  codec.decode_eq_ok_iff.mpr ⟨hvalid, rfl⟩

theorem encode_of_decode {text : Text} {value : Value} (hdecode : codec.decode text = .ok value) :
    codec.encode value = text :=
  (codec.decode_eq_ok_iff.mp hdecode).2

/-- The accepted texts are the encodings of the valid values. -/
theorem exists_decode_iff {text : Text} :
    (∃ value, codec.decode text = .ok value) ↔
      ∃ value, codec.Valid value ∧ codec.encode value = text :=
  exists_congr fun _ => codec.decode_eq_ok_iff

theorem encode_injOn : Set.InjOn codec.encode {value | codec.Valid value} := by
  intro left hleft right hright heq
  have hdecode := codec.decode_encode hleft
  rw [heq, codec.decode_encode hright] at hdecode
  exact (Except.ok.inj hdecode).symm

/-- Where no two values share an encoding, an encoding is accepted exactly when
its own value is valid. -/
theorem exists_decode_encode_iff (hinjective : Function.Injective codec.encode) {value : Value} :
    (∃ decoded, codec.decode (codec.encode value) = .ok decoded) ↔ codec.Valid value := by
  constructor
  · rintro ⟨decoded, hdecode⟩
    obtain ⟨hvalid, heq⟩ := codec.decode_eq_ok_iff.mp hdecode
    exact hinjective heq ▸ hvalid
  · intro hvalid
    exact ⟨value, codec.decode_encode hvalid⟩

/-- A sequence of valid values is read back in its order. -/
theorem mapM_decode_map_encode {values : List Value}
    (hvalid : ∀ value ∈ values, codec.Valid value) :
    (values.map codec.encode).mapM codec.decode = .ok values := by
  induction values with
  | nil => rfl
  | cons value values ih =>
      have hrest := ih fun other hother => hvalid other (List.mem_cons_of_mem value hother)
      rw [List.map_cons, List.mapM_cons, codec.decode_encode (hvalid value List.mem_cons_self),
        hrest]
      rfl

end ExactCodec

end BlockchainDataCollection.Codec
