import SqlRecord.Command.Run
import SqlRecord.Proofs.Schema.Build

/-!
# Sequences of records

What a sequence of records yields is known from its cursor (`Rows.yields`): an item for each row
before the first failure or end, whether or not the row decodes, and then the failure, if it is
one. A call of `next` gives the first item that is left and polls the cursor once; when no item is
left the sequence is at its end for good. Main statement: `Table.fetchAll_yields`.
-/

namespace SqlRecord

/-! ### Scripts -/

namespace Cursor

variable {ε : Type}

/-- The rows of a script before its first failure or end. -/
def leading : List (CursorEvent ε) → List (List Value)
  | .row cells :: events => cells :: leading events
  | _ => []

/-- The failure of a script that has no end before it. -/
def failure? : List (CursorEvent ε) → Option ε
  | .row _ :: events => failure? events
  | .failure e :: _ => some e
  | _ => none

theorem length_leading_le (events : List (CursorEvent ε)) :
    (leading events).length ≤ events.length := by
  induction events with
  | nil => exact Nat.le_refl 0
  | cons event events ih =>
    cases event with
    | row cells => exact Nat.succ_le_succ ih
    | failure e => exact Nat.zero_le _
    | done => exact Nat.zero_le _

end Cursor

namespace Rows

open Cursor (leading failure? length_leading_le)

variable {s : Schema} {ε : Type} [OfError ε] {rows : Rows s ε}

/-- The record of a row, or why the row does not decode. -/
def item (rows : Rows s ε) (cells : List Value) : Except ε (Record s) :=
  (materialize rows.bindings cells).mapError OfError.ofError

/-- The items that a sequence has left: one for each row before the first failure or end of the
cursor, and that failure. -/
def yields (rows : Rows s ε) : List (Except ε (Record s)) :=
  if rows.finished then []
  else (leading rows.cursor.events).map rows.item ++
    (failure? rows.cursor.events).toList.map .error

/-- How often a sequence still polls its cursor: once for each of the rows, and once for what ends
them. -/
def polls (rows : Rows s ε) : Nat :=
  if rows.finished then 0 else (leading rows.cursor.events).length + 1

/-- The sequence after some calls of `next`. -/
def after : Nat → Rows s ε → Rows s ε
  | 0, rows => rows
  | n + 1, rows => after n rows.next.2

/-! ### Calls of `next` -/

/-- What one call does: it gives the first item that is left, and takes one event from the cursor
unless the sequence is finished. -/
theorem next_spec (rows : Rows s ε) :
    rows.next.1 = rows.yields.head? ∧ rows.next.2.yields = rows.yields.tail ∧
      rows.next.2.polls = rows.polls - 1 ∧
      rows.next.2.cursor =
        { rows.cursor with events := rows.cursor.events.drop (min 1 rows.polls) } := by
  obtain ⟨⟨names, events⟩, bindings, finished⟩ := rows
  cases finished with
  | true => exact ⟨rfl, rfl, rfl, rfl⟩
  | false =>
    cases events with
    | nil => exact ⟨rfl, rfl, rfl, rfl⟩
    | cons event events =>
      have hdrop : ∀ n, (event :: events).drop (min 1 (n + 1)) = events := fun n => by
        rw [Nat.min_eq_left (Nat.le_add_left 1 n), List.drop_one, List.tail_cons]
      cases event with
      | row cells => exact ⟨rfl, rfl, rfl, congrArg _ (hdrop _).symm⟩
      | failure e => exact ⟨rfl, rfl, rfl, rfl⟩
      | done => exact ⟨rfl, rfl, rfl, rfl⟩

/-- **What any number of calls give**: the items that are left, and nothing after them. -/
theorem calls_eq (n : Nat) (rows : Rows s ε) :
    rows.calls n = (rows.yields.map some ++ List.replicate n none).take n := by
  induction n generalizing rows with
  | zero => rfl
  | succ n ih =>
    obtain ⟨hitem, hrest, -⟩ := rows.next_spec
    rw [calls, hitem, ih, hrest]
    cases rows.yields with
    | nil => simp [List.replicate_succ]
    | cons item items =>
      simp [List.replicate_succ', ← List.append_assoc, List.take_append_of_le_length]

/-- **What any number of calls take from the cursor**: an event each, up to the first failure or
end. -/
theorem after_spec (n : Nat) (rows : Rows s ε) :
    (rows.after n).polls = rows.polls - n ∧
      (rows.after n).cursor =
        { rows.cursor with events := rows.cursor.events.drop (min n rows.polls) } := by
  induction n generalizing rows with
  | zero => simp [after]
  | succ n ih =>
    obtain ⟨-, -, hpolls, hcursor⟩ := rows.next_spec
    obtain ⟨hrest, hdropped⟩ := ih rows.next.2
    have hsum : min 1 rows.polls + min n (rows.polls - 1) = min (n + 1) rows.polls := by omega
    rw [after]
    constructor
    · rw [hrest, hpolls]
      omega
    · rw [hdropped, hpolls, hcursor]
      simp only [List.drop_drop, hsum]

/-- A finished sequence is at its end whatever its cursor, and leaves the cursor alone. -/
theorem next_of_polls_eq_zero (h : rows.polls = 0) (other : Cursor ε) :
    ({ rows with cursor := other } : Rows s ε).next = (none, { rows with cursor := other }) := by
  have hfinished : rows.finished = true := by
    by_contra hopen
    rw [polls, if_neg hopen] at h
    cases h
  rw [next]
  exact if_pos hfinished

/-! ### Taking records -/

/-- A call of `next` gives the first item that is left and leaves the others. -/
theorem next_eq (rows : Rows s ε) : rows.next = (rows.yields.head?, rows.after 1) :=
  Prod.ext rows.next_spec.1 rfl

/-- After a call the items that are left are one fewer. -/
theorem yields_after_one {item : Except ε (Record s)} {items : List (Except ε (Record s))}
    (h : rows.yields = item :: items) : (rows.after 1).yields = items := by
  rw [after, after, rows.next_spec.2.1, h, List.tail_cons]

/-- Taking records takes the next one and then the others. -/
theorem take_of_record {r : Record s} {items : List (Except ε (Record s))}
    (h : rows.yields = .ok r :: items) (n : Nat) :
    rows.take (n + 1) =
      (((rows.after 1).take n).1.map (r :: ·), ((rows.after 1).take n).2) := by
  rw [take, next_eq, h]
  rfl

/-- Where every item is a record, taking enough of them gives all. -/
theorem take_eq_ok {n : Nat} {records : List (Record s)} (h : rows.yields = records.map .ok)
    (hn : records.length < n) : rows.take n = (.ok records, rows.after (records.length + 1)) := by
  obtain ⟨n, rfl⟩ : ∃ k, n = k + 1 := ⟨n - 1, by omega⟩
  induction records generalizing rows n with
  | nil =>
    rw [take, next_eq, h]
    rfl
  | cons r records ih =>
    rw [List.length_cons] at hn
    obtain ⟨n, rfl⟩ : ∃ k, n = k + 1 := ⟨n - 1, by omega⟩
    rw [take_of_record h, ih (yields_after_one h) n (by omega)]
    rfl

/-- Where an error follows some records, taking enough items gives the error. -/
theorem take_eq_error {n : Nat} {records : List (Record s)} {e : ε}
    {items : List (Except ε (Record s))} (h : rows.yields = records.map .ok ++ .error e :: items)
    (hn : records.length < n) : rows.take n = (.error e, rows.after (records.length + 1)) := by
  obtain ⟨n, rfl⟩ : ∃ k, n = k + 1 := ⟨n - 1, by omega⟩
  induction records generalizing rows n with
  | nil =>
    rw [take, next_eq, h]
    rfl
  | cons r records ih =>
    rw [List.length_cons] at hn
    obtain ⟨n, rfl⟩ : ∃ k, n = k + 1 := ⟨n - 1, by omega⟩
    rw [take_of_record h, ih (yields_after_one h) n (by omega)]
    rfl

/-- There are no more records than rows: a failure of the cursor is none. -/
theorem length_records_le {records : List (Record s)} {items : List (Except ε (Record s))}
    (h : rows.yields = records.map .ok ++ items) :
    records.length ≤ (leading rows.cursor.events).length := by
  have hcount : rows.yields.countP Except.isOk ≤ (leading rows.cursor.events).length := by
    have hfailure : ∀ failures : List ε, (failures.map (Except.error (α := Record s))).countP
        Except.isOk = 0 := fun failures => by simp [List.countP_eq_zero, Except.isOk, Except.toBool]
    rw [yields]
    split_ifs
    · exact Nat.zero_le _
    · rw [List.countP_append, hfailure, ← List.length_map rows.item]
      exact List.countP_le_length
  have hrecords : (records.map (Except.ok (ε := ε))).countP Except.isOk = records.length := by
    rw [List.countP_eq_length.mpr (by simp [Except.isOk, Except.toBool]), List.length_map]
  rw [h, List.countP_append, hrecords] at hcount
  omega

end Rows

/-! ### Fetching -/

open Cursor in
/-- **A sequence of records follows its cursor up to the first failure or end.** Its items are one
for each row before that, whether or not it decodes, and the failure. Each call gives the next item
and takes one event; when no item is left, every call is at the end and leaves the cursor alone,
whatever it would yield. So fetching all gives the records, if every item is one, and otherwise the
first error, and takes no event after that. -/
theorem Table.fetchAll_yields {ε : Type} [OfError ε] (t : Table) (cursor : Cursor ε) :
    let rows := Rows.ofCursor t.schema cursor
    rows.yields = (leading cursor.events).map rows.item ++
        (failure? cursor.events).toList.map .error ∧
      (∀ n, rows.calls n = (rows.yields.map some ++ List.replicate n none).take n ∧
        (rows.after n).cursor = { cursor with
          events := cursor.events.drop (min n ((leading cursor.events).length + 1)) } ∧
        ((leading cursor.events).length < n → ∀ other : Cursor ε,
          ({ rows.after n with cursor := other } : Rows t.schema ε).next =
            (none, { rows.after n with cursor := other }))) ∧
      ∀ {σ : Type} (client : Client σ ε) (c : Command) {state state' : σ},
        client.query c.statement state = (.ok cursor, state') →
          (∀ records : List (Record t.schema), rows.yields = records.map .ok →
            t.finish client c .fetchAll state = (.ok (.records records), state')) ∧
          ∀ (records : List (Record t.schema)) (e : ε)
            (items : List (Except ε (Record t.schema))),
            rows.yields = records.map .ok ++ .error e :: items →
              t.finish client c .fetchAll state = (.error e, state') ∧
              (rows.take (cursor.events.length + 1)).2.cursor.events =
                cursor.events.drop (records.length + 1) := by
  intro rows
  have hpolls : rows.polls = (leading cursor.events).length + 1 := rfl
  have hlength := length_leading_le cursor.events
  refine ⟨rfl, fun n => ⟨Rows.calls_eq n rows, (Rows.after_spec n rows).2, ?_⟩, ?_⟩
  · intro hn other
    refine Rows.next_of_polls_eq_zero ?_ other
    rw [(Rows.after_spec n rows).1, hpolls]
    omega
  · intro σ client c state state' hquery
    have hfinish : t.finish client c .fetchAll state =
        ((rows.take (cursor.events.length + 1)).1.map .records, state') := by
      rw [finish, withRows, hquery]
      rfl
    -- more items are asked for than there are rows
    constructor
    · intro records h
      have hfew : records.length ≤ (leading cursor.events).length :=
        Rows.length_records_le (h.trans (List.append_nil _).symm)
      rw [hfinish, Rows.take_eq_ok h (by omega)]
      rfl
    · intro records e items h
      have hfew : records.length ≤ (leading cursor.events).length := Rows.length_records_le h
      rw [hfinish, Rows.take_eq_error h (by omega), (Rows.after_spec _ rows).2, hpolls,
        Nat.min_eq_left (by omega)]
      exact ⟨rfl, rfl⟩

/-- A result that gives the keys of notes. -/
def Cursor.keys (events : List (CursorEvent Error)) : Cursor Error := ⟨["ID"], events⟩

/-- A cell with a key, and the note that has the key and nothing else. -/
def keyCell (n : Fin 10) : Value := .integer ⟨n, by omega, by omega⟩

def Record.keyed (n : Fin 10) : Record .notes :=
  (Record.default .notes).set ⟨0, by decide⟩ (⟨n, by omega, by omega⟩ : CellInt)

/-- The items of keys: the note with the key of a number, and an error for a text. -/
theorem Rows.item_keys (events : List (CursorEvent Error)) :
    (∀ n, (ofCursor .notes (.keys events)).item [keyCell n] = .ok (.keyed n)) ∧
      (ofCursor .notes (.keys events)).item [.text "x"] =
        .error (.decode "id" (.typeConversion "i64" .text)) := by
  have hbindings : ["ID"].map Schema.notes.positionOf = [some ⟨0, by decide⟩] := by decide +kernel
  constructor
  · intro n
    rw [item, ofCursor, Cursor.keys, hbindings]
    fin_cases n <;> rfl
  · rw [item, ofCursor, Cursor.keys, hbindings]
    rfl

/-- A row that does not decode in front of one that does, and a failure with a row behind it; and an
end with a row behind it. -/
theorem Table.fetchAll_yields_notes :
    let script := [.row [keyCell 7], .row [.text "x"], .row [keyCell 8],
      .failure (.codec (.unsupported .blobLiteral)), .row [keyCell 9]]
    let query : Command := ⟨.query (.plain "notes" none), []⟩
    (Rows.ofCursor .notes (.keys script)).calls 6 =
        [some (.ok (.keyed 7)), some (.error (.decode "id" (.typeConversion "i64" .text))),
          some (.ok (.keyed 8)), some (.error (.codec (.unsupported .blobLiteral))), none, none] ∧
      (Table.mk .notes .inline).finish (.scripted (.keys script) 0) query .fetchAll [] =
        (.error (.decode "id" (.typeConversion "i64" .text)), [query.statement]) ∧
      (Table.mk .notes .inline).finish
          (.scripted (.keys [.row [keyCell 7], .row [keyCell 8], .done, .row [keyCell 9]]) 0)
          query .fetchAll [] =
        (.ok (.records [.keyed 7, .keyed 8]), [query.statement]) := by
  intro script query
  obtain ⟨hyields, hcalls, hfetch⟩ := fetchAll_yields (.mk .notes .inline) (.keys script)
  obtain ⟨hyields', -, hfetch'⟩ := fetchAll_yields (.mk .notes .inline)
    (.keys [.row [keyCell 7], .row [keyCell 8], .done, .row [keyCell 9]])
  obtain ⟨hrecord, hmismatch⟩ := Rows.item_keys script
  obtain ⟨hrecord', -⟩ :=
    Rows.item_keys [.row [keyCell 7], .row [keyCell 8], .done, .row [keyCell 9]]
  have hscript : (Rows.ofCursor .notes (.keys script)).yields =
      [.ok (.keyed 7), .error (.decode "id" (.typeConversion "i64" .text)), .ok (.keyed 8),
        .error (.codec (.unsupported .blobLiteral))] := by
    rw [← hrecord 7, ← hrecord 8, ← hmismatch]
    exact hyields
  refine ⟨?_, ?_, ?_⟩
  · rw [(hcalls 6).1, hscript]
    rfl
  · exact ((hfetch (.scripted (.keys script) 0) query rfl).2 [.keyed 7] _ _ hscript).1
  · refine (hfetch' (.scripted _ 0) query rfl).1 [.keyed 7, .keyed 8] ?_
    rw [List.map_cons, List.map_cons, ← hrecord' 7, ← hrecord' 8]
    exact hyields'

end SqlRecord
