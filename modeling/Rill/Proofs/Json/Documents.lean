-- SUMMARY: A document that has been written is read back.
import Rill.Proofs.Json.Scalars

/-!
# Reading documents

The text of a document is read back as that document, if it has no float in it, no object names a field
twice and it is not nested too deep. The fuel of the reader is spent more slowly than the text.
-/

namespace Rill.Json

-- ---------------------------------------------------------------------------
-- Documents without floats
-- ---------------------------------------------------------------------------

mutual

/-- There is no float in the document, and the fields of an object have different keys. -/
def Document.Plain : Document → Prop
  | .float _ => False
  | .list items => PlainItems items
  | .object fields => (fields.map (·.1)).Nodup ∧ PlainFields fields
  | .null | .bool _ | .int _ | .text _ => True

def PlainItems : List Document → Prop
  | [] => True
  | d :: rest => d.Plain ∧ PlainItems rest

def PlainFields : List (String × Document) → Prop
  | [] => True
  | (_, d) :: rest => d.Plain ∧ PlainFields rest

end

mutual

/-- The number of levels of lists and objects in a document. -/
def Document.depth : Document → Nat
  | .list items => itemsDepth items + 1
  | .object fields => fieldsDepth fields + 1
  | .null | .bool _ | .int _ | .float _ | .text _ => 0

def itemsDepth : List Document → Nat
  | [] => 0
  | d :: rest => max d.depth (itemsDepth rest)

def fieldsDepth : List (String × Document) → Nat
  | [] => 0
  | (_, d) :: rest => max d.depth (fieldsDepth rest)

end

-- ---------------------------------------------------------------------------
-- First characters
-- ---------------------------------------------------------------------------

/-- A character that a document may start with. -/
def Opening (c : Char) : Prop := isBlank c = false ∧ c ≠ ']' ∧ c ≠ '\x7d'

instance (c : Char) : Decidable (Opening c) := inferInstanceAs (Decidable (_ ∧ _))

theorem opening_of_isDigit {c : Char} (h : c.isDigit = true) : Opening c := by
  refine ⟨?_, ?_, ?_⟩
  · rw [Bool.eq_false_iff]
    intro hblank
    simp only [isBlank, Bool.or_eq_true, decide_eq_true_eq] at hblank
    rcases hblank with ((rfl | rfl) | rfl) | rfl
    all_goals cases h
  · rintro rfl
    cases h
  · rintro rfl
    cases h

theorem write_opening {d : Document} (h : d.Plain) : ∃ c cs, d.write = c :: cs ∧ Opening c := by
  match d, h with
  | .null, _ => exact ⟨'n', _, by rw [Document.write]; rfl, by decide⟩
  | .bool true, _ => exact ⟨'t', _, by rw [Document.write]; rfl, by decide⟩
  | .bool false, _ => exact ⟨'f', _, by rw [Document.write]; rfl, by decide⟩
  | .text s, _ => exact ⟨'"', _, by rw [Document.write]; rfl, by decide⟩
  | .list [], _ => exact ⟨'[', _, by rw [Document.write], by decide⟩
  | .list (d :: rest), _ => exact ⟨'[', _, by rw [Document.write]; rfl, by decide⟩
  | .object [], _ => exact ⟨'\x7b', _, by rw [Document.write], by decide⟩
  | .object (field :: rest), _ => exact ⟨'\x7b', _, by rw [Document.write]; rfl, by decide⟩
  | .int n, _ =>
    rw [Document.write, toString_int64]
    split
    · exact ⟨'-', _, rfl, by decide⟩
    · obtain ⟨c, cs, hdigits⟩ := List.exists_cons_of_ne_nil (Nat.toDigits_ne_nil (n := n.toInt.natAbs) (b := 10))
      have hc : c ∈ Nat.toDigits 10 n.toInt.natAbs := by simp [hdigits]
      exact ⟨c, cs, hdigits, opening_of_isDigit (isDigit_of_mem_toDigits hc)⟩

theorem write_length_pos {d : Document} (h : d.Plain) : 0 < d.write.length := by
  obtain ⟨c, cs, hwrite, -⟩ := write_opening h
  simp [hwrite]

theorem writeItems_length_pos (ds : List Document) : 0 < (writeItems ds).length := by
  cases ds <;> simp [writeItems]

theorem writeFields_length_pos (entries : List (String × Document)) : 0 < (writeFields entries).length := by
  cases entries <;> simp [writeFields]

theorem writeItems_closed (ds : List Document) (after : List Char) : Closed (writeItems ds ++ after) := by
  cases ds with
  | nil =>
    rintro c ⟨⟩
    exact .inr (.inl rfl)
  | cons d ds =>
    rintro c ⟨⟩
    exact .inl rfl

theorem writeFields_closed (fields : List (String × Document)) (after : List Char) :
    Closed (writeFields fields ++ after) := by
  cases fields with
  | nil =>
    rintro c ⟨⟩
    exact .inr (.inr rfl)
  | cons field fields =>
    rintro c ⟨⟩
    exact .inl rfl

-- ---------------------------------------------------------------------------
-- Items and fields
-- ---------------------------------------------------------------------------

/-- There is no separator in front of the first item. -/
theorem separator_first (next close : Char) (expected : Problem) (text : List Char) :
    Gives (separator true next close expected) text ⟨⟩ text := .pure _ _

/-- A comma separates an item from the one before it. -/
theorem separator_next {c close : Char} (hblank : isBlank c = false) (hclose : c ≠ close)
    (expected : Problem) (text : List Char) :
    Gives (separator false ',' close expected) (',' :: c :: text) ⟨⟩ (c :: text) := by
  refine .bind (.skip _ _) (.bind (.peekPastBlanks hblank _) ?_)
  dsimp only
  rw [if_neg hclose]
  exact .pure _ _

section

variable {fuel depth : Nat} {first : Bool} {c : Char} {text start middle after : List Char} {d : Document}

theorem items_end (fuel depth : Nat) (first : Bool) (after : List Char) :
    Gives (items (fuel + 1) depth first) (']' :: after) [] after := by
  rw [items]
  exact .bind (.peekPastBlanks rfl _) (.bind (.skip _ _) (.pure _ _))

theorem items_item {ds : List Document} (hblank : isBlank c = false) (hbracket : c ≠ ']')
    (hseparator : Gives (separator first c ']' .expectedListComma) (c :: text) ⟨⟩ start)
    (hitem : Gives (document fuel depth) start d middle)
    (hrest : Gives (items fuel depth false) middle ds after) :
    Gives (items (fuel + 1) depth first) (c :: text) (d :: ds) after := by
  rw [items]
  refine .bind (.peekPastBlanks hblank _) ?_
  split
  case h_1 hnone => cases hnone
  case h_2 hsome => exact absurd (Option.some.inj hsome) hbracket
  case h_3 hsome =>
    cases hsome
    exact .bind hseparator (.bind hitem (.bind hrest (.pure _ _)))

theorem fields_end (fuel depth : Nat) (first : Bool) (after : List Char) :
    Gives (fields (fuel + 1) depth first) ('\x7d' :: after) [] after := by
  rw [fields]
  exact .bind (.peekPastBlanks rfl _) (.bind (.skip _ _) (.pure _ _))

theorem colon_gives (text : List Char) : Gives colon (':' :: text) ⟨⟩ text :=
  .bind (.peekPastBlanks rfl _) (.skip _ _)

theorem fields_field {key : String} {rest : List (String × Document)} (hblank : isBlank c = false)
    (hbrace : c ≠ '\x7d')
    (hseparator : Gives (separator first c '\x7d' .expectedObjectComma) (c :: text) ⟨⟩
      (writeString key ++ ':' :: start))
    (hvalue : Gives (document fuel depth) start d middle)
    (hrest : Gives (fields fuel depth false) middle rest after) :
    Gives (fields (fuel + 1) depth first) (c :: text) ((key, d) :: rest) after := by
  rw [fields]
  refine .bind (.peekPastBlanks hblank _) ?_
  split
  case h_1 hnone => cases hnone
  case h_2 hsome => exact absurd (Option.some.inj hsome) hbrace
  case h_3 hsome =>
    cases hsome
    refine .bind hseparator (.bind (.peek _) ?_)
    have hquote : (writeString key ++ ':' :: start).head? = some '"' := rfl
    simp only [hquote, ne_eq, not_true_eq_false, if_false]
    exact .bind (string_gives _ _) (.bind (colon_gives _) (.bind hvalue (.bind hrest (.pure _ _))))

end

-- ---------------------------------------------------------------------------
-- Documents
-- ---------------------------------------------------------------------------

/-- A map gets entries with new keys at its end. -/
theorem foldl_insert {κ α : Type} [DecidableEq κ] {before : Array (κ × α)} {entries : List (κ × α)}
    (h : ((before.toList ++ entries).map (·.1)).Nodup) :
    entries.foldl (fun m (k, v) => m.insert k v) (OrderedMap.mk before) = ⟨before ++ entries.toArray⟩ := by
  induction entries generalizing before with
  | nil => simp
  | cons entry entries ih =>
    have hnew : (OrderedMap.mk before).position? entry.1 = none := by
      rw [OrderedMap.position?, Array.findIdx?_eq_none_iff]
      intro other hother
      have hother : other.1 ∈ before.toList.map (·.1) := List.mem_map_of_mem (by simpa using hother)
      rw [List.map_append, List.nodup_append] at h
      simpa using h.2.2 _ hother _ (by simp)
    have hinsert : (OrderedMap.mk before).insert entry.1 entry.2 = ⟨before.push entry⟩ := by
      rw [OrderedMap.insert, hnew]
    calc (entry :: entries).foldl (fun m (k, v) => m.insert k v) (OrderedMap.mk before)
        = entries.foldl (fun m (k, v) => m.insert k v) ((OrderedMap.mk before).insert entry.1 entry.2) := rfl
      _ = ⟨before.push entry ++ entries.toArray⟩ := by rw [hinsert, ih (by simpa using h)]
      _ = ⟨before ++ (entry :: entries).toArray⟩ := by simp

/-- The entries of a map made from fields with different keys are the fields. -/
theorem ofList_eq {κ α : Type} [DecidableEq κ] {entries : List (κ × α)} (h : (entries.map (·.1)).Nodup) :
    OrderedMap.ofList entries = ⟨entries.toArray⟩ := by
  have hnodup : (((#[] : Array (κ × α)).toList ++ entries).map (·.1)).Nodup := h
  have hfold := foldl_insert hnodup
  rwa [Array.empty_append] at hfold

section

variable {fuel depth : Nat} {text after : List Char}

theorem list_gives {ds : List Document} (hdepth : 1 < depth)
    (h : Gives (items fuel (depth - 1) true) text ds after) :
    Gives (document (fuel + 1) depth) ('[' :: text) (.list ds) after := by
  rw [document]
  refine .bind (.peekPastBlanks rfl _) ?_
  simp only [Nat.not_le.mpr hdepth, if_false]
  exact .bind (.skip _ _) (.bind h (.pure _ _))

theorem object_gives {entries : List (String × Document)} (hdepth : 1 < depth)
    (hkeys : (entries.map (·.1)).Nodup) (h : Gives (fields fuel (depth - 1) true) text entries after) :
    Gives (document (fuel + 1) depth) ('\x7b' :: text) (.object entries) after := by
  rw [document]
  refine .bind (.peekPastBlanks rfl _) ?_
  simp only [Nat.not_le.mpr hdepth, if_false]
  refine .bind (.skip _ _) (.bind h ?_)
  rw [ofList_eq hkeys]
  exact .pure _ _

theorem number_document_gives (n : Int64) (hafter : Closed after) :
    Gives (document (fuel + 1) depth) ((toString n).toList ++ after) (.int n) after := by
  have hdigits := int_gives n hafter
  rw [toString_int64]
  by_cases hneg : n.toInt < 0
  · rw [decide_eq_true hneg] at hdigits
    rw [if_pos hneg, document]
    exact .bind (.peekPastBlanks rfl _) (.bind (.skip _ _) hdigits)
  · rw [decide_eq_false hneg] at hdigits
    rw [if_neg hneg]
    obtain ⟨c, cs, hwritten⟩ := List.exists_cons_of_ne_nil (Nat.toDigits_ne_nil (n := n.toInt.natAbs) (b := 10))
    have hc : c.isDigit = true := isDigit_of_mem_toDigits (n := n.toInt.natAbs) (by simp [hwritten])
    rw [hwritten, List.cons_append] at hdigits ⊢
    rw [document]
    refine .bind (.peekPastBlanks (opening_of_isDigit hc).1 _) ?_
    -- A digit is none of the characters that other documents start with.
    split
    case h_9 hsome =>
      cases hsome
      simp only [hc, Bool.not_true, Bool.false_eq_true, if_false]
      exact hdigits
    all_goals
      rename_i heq
      cases heq
      try cases hc

end

theorem exists_fuel {n fuel : Nat} (hn : 0 < n) (hfuel : n ≤ fuel) : ∃ k, fuel = k + 1 :=
  Nat.exists_eq_add_one_of_ne_zero (by omega)

mutual

theorem document_gives {d : Document} (hplain : d.Plain) {fuel depth : Nat} (hfuel : d.write.length ≤ fuel)
    (hdepth : d.depth < depth) {after : List Char} (hafter : Closed after) :
    Gives (document fuel depth) (d.write ++ after) d after := by
  obtain ⟨fuel, rfl⟩ := exists_fuel (write_length_pos hplain) hfuel
  match d with
  | .null =>
    rw [document, Document.write]
    exact .bind (.peekPastBlanks rfl _) (.bind (.skip _ _) (.bind (word_gives _ _) (.pure _ _)))
  | .bool true =>
    rw [document, Document.write]
    exact .bind (.peekPastBlanks rfl _) (.bind (.skip _ _) (.bind (word_gives _ _) (.pure _ _)))
  | .bool false =>
    rw [document, Document.write]
    exact .bind (.peekPastBlanks rfl _) (.bind (.skip _ _) (.bind (word_gives _ _) (.pure _ _)))
  | .int n =>
    rw [Document.write]
    exact number_document_gives n hafter
  | .float x => exact hplain.elim
  | .text s =>
    rw [document, Document.write]
    exact .bind (.peekPastBlanks rfl _) (.bind (string_gives _ _) (.pure _ _))
  | .list [] =>
    simp only [Document.write, List.length_cons, List.length_nil] at hfuel
    simp only [Document.depth] at hdepth
    obtain ⟨fuel, rfl⟩ := exists_fuel Nat.one_pos (Nat.le_of_succ_le_succ hfuel)
    rw [Document.write]
    exact list_gives (by omega) (items_end _ _ _ _)
  | .list (d :: rest) =>
    obtain ⟨hd, hrest⟩ := hplain
    have hitem := write_length_pos hd
    have hitems := writeItems_length_pos rest
    simp only [Document.write, List.length_cons, List.length_append, List.cons_append] at hfuel
    simp only [Document.depth, itemsDepth] at hdepth
    obtain ⟨fuel, rfl⟩ := exists_fuel hitem (show d.write.length ≤ fuel by omega)
    have hread : Gives (document fuel (depth - 1)) (d.write ++ (writeItems rest ++ after)) d
        (writeItems rest ++ after) :=
      document_gives hd (by omega) (by omega) (writeItems_closed rest after)
    have hreads : Gives (items fuel (depth - 1) false) (writeItems rest ++ after) rest after :=
      items_gives hrest (by omega) (by omega) after
    obtain ⟨c, cs, hwrite, hblank, hbracket, -⟩ := write_opening hd
    rw [Document.write, List.cons_append, List.cons_append, List.append_assoc]
    rw [hwrite] at hread ⊢
    exact list_gives (by omega) (items_item hblank hbracket (separator_first _ _ _ _) hread hreads)
  | .object [] =>
    simp only [Document.write, List.length_cons, List.length_nil] at hfuel
    simp only [Document.depth] at hdepth
    obtain ⟨fuel, rfl⟩ := exists_fuel Nat.one_pos (Nat.le_of_succ_le_succ hfuel)
    rw [Document.write]
    exact object_gives (by omega) .nil (fields_end _ _ _ _)
  | .object ((key, d) :: rest) =>
    obtain ⟨hkeys, hd, hrest⟩ := hplain
    have hvalue := write_length_pos hd
    have hfields := writeFields_length_pos rest
    simp only [Document.write, List.length_cons, List.length_append, List.cons_append] at hfuel
    simp only [Document.depth, fieldsDepth] at hdepth
    obtain ⟨fuel, rfl⟩ := exists_fuel hvalue (show d.write.length ≤ fuel by omega)
    have hread : Gives (document fuel (depth - 1)) (d.write ++ (writeFields rest ++ after)) d
        (writeFields rest ++ after) :=
      document_gives hd (by omega) (by omega) (writeFields_closed rest after)
    have hreads : Gives (fields fuel (depth - 1) false) (writeFields rest ++ after) rest after :=
      fields_gives hrest (by omega) (by omega) after
    have htext : Document.write (.object ((key, d) :: rest)) ++ after =
        '\x7b' :: (writeString key ++ ':' :: (d.write ++ (writeFields rest ++ after))) := by
      simp [Document.write]
    rw [htext]
    exact object_gives (by omega) hkeys
      (fields_field (c := '"') rfl (by decide) (separator_first _ _ _ _) hread hreads)

theorem items_gives {ds : List Document} (hplain : PlainItems ds) {fuel depth : Nat}
    (hfuel : (writeItems ds).length ≤ fuel) (hdepth : itemsDepth ds < depth) (after : List Char) :
    Gives (items fuel depth false) (writeItems ds ++ after) ds after := by
  obtain ⟨fuel, rfl⟩ := exists_fuel (writeItems_length_pos ds) hfuel
  match ds with
  | [] =>
    rw [writeItems]
    exact items_end _ _ _ _
  | d :: rest =>
    obtain ⟨hd, hrest⟩ := hplain
    simp only [writeItems, List.length_cons, List.length_append] at hfuel
    simp only [itemsDepth] at hdepth
    have hread : Gives (document fuel depth) (d.write ++ (writeItems rest ++ after)) d
        (writeItems rest ++ after) :=
      document_gives hd (by omega) (by omega) (writeItems_closed rest after)
    have hreads : Gives (items fuel depth false) (writeItems rest ++ after) rest after :=
      items_gives hrest (by omega) (by omega) after
    obtain ⟨c, cs, hwrite, hblank, hbracket, -⟩ := write_opening hd
    rw [writeItems, List.cons_append, List.cons_append, List.append_assoc]
    rw [hwrite] at hread ⊢
    exact items_item rfl (by decide) (separator_next hblank hbracket _ _) hread hreads

theorem fields_gives {entries : List (String × Document)} (hplain : PlainFields entries) {fuel depth : Nat}
    (hfuel : (writeFields entries).length ≤ fuel) (hdepth : fieldsDepth entries < depth) (after : List Char) :
    Gives (fields fuel depth false) (writeFields entries ++ after) entries after := by
  obtain ⟨fuel, rfl⟩ := exists_fuel (writeFields_length_pos entries) hfuel
  match entries with
  | [] =>
    rw [writeFields]
    exact fields_end _ _ _ _
  | (key, d) :: rest =>
    obtain ⟨hd, hrest⟩ := hplain
    simp only [writeFields, List.length_cons, List.length_append] at hfuel
    simp only [fieldsDepth] at hdepth
    have hread : Gives (document fuel depth) (d.write ++ (writeFields rest ++ after)) d
        (writeFields rest ++ after) :=
      document_gives hd (by omega) (by omega) (writeFields_closed rest after)
    have hreads : Gives (fields fuel depth false) (writeFields rest ++ after) rest after :=
      fields_gives hrest (by omega) (by omega) after
    have htext : writeFields ((key, d) :: rest) ++ after =
        ',' :: (writeString key ++ ':' :: (d.write ++ (writeFields rest ++ after))) := by
      simp [writeFields]
    rw [htext]
    exact fields_field rfl (by decide) (separator_next (c := '"') rfl (by decide) _ _) hread hreads

end

/-- A document without floats that is not nested too deep is read back from its text. -/
theorem read_write {d : Document} (hplain : d.Plain) (hdepth : d.depth < 128) :
    read (String.ofList d.write) = .ok d := by
  have hread : Gives (document (2 * d.write.length + 2) 128) (d.write ++ []) d [] :=
    document_gives hplain (by omega) hdepth nofun
  have hcomplete : Gives (complete (2 * d.write.length + 2)) d.write d [] := by
    rw [List.append_nil] at hread
    exact .bind hread (.bind (a := none) rfl (.pure _ _))
  rw [read, String.toList_ofList]
  rw [StateT.run, hcomplete]

end Rill.Json
