import SqlRecord.Proofs.Field.RoundTrip

/-!
# Payloads cut short or padded

A frame is read by its header and its size alone (`Payload.unframe_eq`): what is wrong with it
(`Payload.frameFault`) is told before the body is looked at, and so at every type alike. Since the
header says how long the bytes are, bytes that agree in it and differ in length are not both
accepted (`Payload.eq_of_isPrefix`). Main statement: `Payload.deserialize_cut_or_padded`.
-/

namespace SqlRecord

open Cbor

namespace Payload

/-! ### Headers -/

/-- The length that the header of framed bytes declares. -/
def declared (bytes : List UInt8) : Nat := ofBigEndian (bytes.take headerSize)

/-- What is wrong with bytes of a size that do not have the length that their header declares. -/
def frameFault (declared size : Nat) : DeserializeFault :=
  if size < headerSize then .headerCut size else .lengthMismatch declared (size - headerSize)

variable {bytes other body : List UInt8} {fault : DeserializeFault}

/-- **A frame is accepted or refused by its header and its size.** -/
theorem unframe_eq (bytes : List UInt8) :
    unframe bytes = if bytes.length = headerSize + declared bytes then .ok (bytes.drop headerSize)
      else .error (frameFault (declared bytes) bytes.length) := by
  have hunframe : unframe bytes =
      if bytes.length < headerSize then .error (.headerCut bytes.length)
      else if declared bytes = (bytes.drop headerSize).length then .ok (bytes.drop headerSize)
      else .error (.lengthMismatch (declared bytes) (bytes.drop headerSize).length) := rfl
  rw [hunframe, frameFault, List.length_drop]
  by_cases hcut : bytes.length < headerSize
  · rw [if_pos hcut, if_neg (by omega), if_pos hcut]
  · rw [if_neg hcut, if_neg hcut]
    exact if_congr (by omega) rfl rfl

/-- What is wrong with bytes is wrong with all bytes of the same size behind the same header. -/
theorem unframe_error_congr {similar : List UInt8} (hsize : similar.length = other.length)
    (hheader : similar.take headerSize = other.take headerSize)
    (h : unframe other = .error fault) : unframe similar = .error fault := by
  have hdeclared : declared similar = declared other := congrArg ofBigEndian hheader
  rw [unframe_eq] at h ⊢
  rw [hdeclared, hsize]
  split_ifs at h ⊢
  exact h

theorem length_of_unframe (h : unframe bytes = .ok body) :
    bytes.length = headerSize + declared bytes := by
  rw [unframe_eq] at h
  split_ifs at h with hlength
  exact hlength

theorem unframe_of_length_ne (h : bytes.length ≠ headerSize + declared bytes) :
    unframe bytes = .error (frameFault (declared bytes) bytes.length) := by
  rw [unframe_eq, if_neg h]

/-- A header that is not cut stays the same in front of more bytes. -/
theorem declared_eq_of_isPrefix (hbegins : bytes <+: other) (hheader : headerSize ≤ bytes.length) :
    declared bytes = declared other := by
  obtain ⟨more, rfl⟩ := hbegins
  rw [declared, declared, List.take_append_of_le_length hheader]

/-- **No accepted frame is the beginning of another one.** -/
theorem eq_of_isPrefix {body' : List UInt8} (h : unframe bytes = .ok body)
    (h' : unframe other = .ok body') (hbegins : bytes <+: other) : bytes = other := by
  have hlength := length_of_unframe h
  have hlength' := length_of_unframe h'
  have hdeclared := declared_eq_of_isPrefix hbegins (by omega)
  exact hbegins.eq_of_length (by omega)

/-- Bytes that are the beginning of an accepted frame, or begin with one, and are not the frame
itself do not have the length that their header declares. What is wrong with them is told from the
size of the frame. -/
theorem unframe_cut_or_padded (h : unframe bytes = .ok body) (hne : other ≠ bytes)
    (hbegins : other <+: bytes ∨ bytes <+: other) :
    unframe other = .error (frameFault (bytes.length - headerSize) other.length) := by
  have hlength := length_of_unframe h
  by_cases hcut : other.length < headerSize
  · rw [unframe_of_length_ne (by omega), frameFault, frameFault, if_pos hcut, if_pos hcut]
  · obtain ⟨hdeclared, hsize⟩ : declared other = declared bytes ∧ other.length ≠ bytes.length := by
      rcases hbegins with hbegins | hbegins
      · exact ⟨declared_eq_of_isPrefix hbegins (by omega), fun hsize =>
          hne (hbegins.eq_of_length hsize)⟩
      · exact ⟨(declared_eq_of_isPrefix hbegins (by omega)).symm, fun hsize =>
          hne (hbegins.eq_of_length hsize.symm).symm⟩
    rw [unframe_of_length_ne (by omega), hdeclared, hlength, Nat.add_sub_cancel_left]

/-! ### Payloads -/

variable {t u : PayloadType}

theorem exists_unframe_of_deserialize {v : t.Carrier} (h : deserialize t bytes = .ok v) :
    ∃ body, unframe bytes = .ok body := by
  cases hbody : unframe bytes with
  | ok body => exact ⟨body, rfl⟩
  | error fault =>
    rw [deserialize, hbody] at h
    cases h

theorem exists_unframe_of_serialize {v : t.Carrier} (h : serialize t v = .ok bytes) :
    ∃ body, unframe bytes = .ok body := by
  cases hitem : t.toItem v with
  | ok item =>
    rw [serialize, hitem] at h
    exact ⟨item.write, unframe_frame h⟩
  | error fault =>
    rw [serialize, hitem] at h
    cases h

/-- A frame that is refused is refused at every type, and in every column of payloads. -/
theorem deserialize_of_unframe (h : unframe bytes = .error fault) (u : PayloadType) :
    deserialize u bytes = .error fault ∧
      (NativeType.payload u).ofValue (.blob bytes) = .error (.deserialize fault) := by
  have hdeserialize : deserialize u bytes = .error fault := by
    rw [deserialize, h]
    rfl
  refine ⟨hdeserialize, ?_⟩
  rw [NativeType.ofValue_payload, hdeserialize]
  rfl

/-- **Payloads that are cut short or padded never decode.** Bytes that are the beginning of bytes
which are accepted at some type, or begin with them, and are not these bytes themselves are refused
at every type, as are all other bytes of the same size behind the same header: the body is not
looked at. In particular, of the serialized bytes of two payloads of any types, none are the
beginning of others. -/
theorem deserialize_cut_or_padded :
    (∀ {t : PayloadType} {v : t.Carrier} {bytes other : List UInt8},
      deserialize t bytes = .ok v → other ≠ bytes → other <+: bytes ∨ bytes <+: other →
        ∀ similar : List UInt8, similar.length = other.length →
          similar.take headerSize = other.take headerSize → ∀ u : PayloadType,
            deserialize u similar =
              .error (frameFault (bytes.length - headerSize) other.length) ∧
            (NativeType.payload u).ofValue (.blob similar) =
              .error (.deserialize (frameFault (bytes.length - headerSize) other.length))) ∧
    ∀ {t u : PayloadType} {v : t.Carrier} {w : u.Carrier} {bytes other : List UInt8},
      serialize t v = .ok bytes → serialize u w = .ok other → bytes <+: other → bytes = other := by
  constructor
  · intro t v bytes other h hne hbegins similar hsize hheader u
    obtain ⟨body, hbody⟩ := exists_unframe_of_deserialize h
    have hother := unframe_cut_or_padded hbody hne hbegins
    exact deserialize_of_unframe (unframe_error_congr hsize hheader hother) u
  · intro t u v w bytes other h h' hbegins
    obtain ⟨body, hbody⟩ := exists_unframe_of_serialize h
    obtain ⟨body', hbody'⟩ := exists_unframe_of_serialize h'
    exact eq_of_isPrefix hbody hbody' hbegins

/-- Two flags behind their length are accepted. Cut within the length or within the body, and with
`null` behind them, they are refused, also where a text is read; and no payload is serialized as
these bytes and more. -/
theorem deserialize_cut_or_padded_flags :
    deserialize (.list .flag) [0, 0, 0, 3, 0x82, 0xf5, 0xf4] = .ok ([true, false] : List Bool) ∧
    deserialize (.list .flag) [0, 0] = .error (.headerCut 2) ∧
    deserialize (.list .flag) [0, 0, 0, 3, 0x82, 0xf5] = .error (.lengthMismatch 3 2) ∧
    deserialize .text [0, 0, 0, 3, 0x82, 0xf5, 0xf4, 0xf6] = .error (.lengthMismatch 3 4) ∧
    ∀ (u : PayloadType) (w : u.Carrier) (more : List UInt8),
      serialize u w = .ok ([0, 0, 0, 3, 0x82, 0xf5, 0xf4] ++ more) → more = [] := by
  have hserialize : serialize (.list .flag) ([true, false] : List Bool) =
      .ok [0, 0, 0, 3, 0x82, 0xf5, 0xf4] := rfl
  have hflags : deserialize (.list .flag) [0, 0, 0, 3, 0x82, 0xf5, 0xf4] =
      .ok ([true, false] : List Bool) := deserialize_serialize (by decide) hserialize
  refine ⟨hflags, ?_, ?_, ?_, fun u w more h => ?_⟩
  · exact (deserialize_cut_or_padded.1 hflags (by decide) (.inl (by decide)) _ rfl rfl _).1
  · exact (deserialize_cut_or_padded.1 hflags (by decide) (.inl (by decide)) _ rfl rfl _).1
  · exact (deserialize_cut_or_padded.1 hflags (by decide) (.inr (by decide)) _ rfl rfl _).1
  · have heq := deserialize_cut_or_padded.2 hserialize h (List.prefix_append _ more)
    exact List.self_eq_append_right.mp heq

end Payload

end SqlRecord
