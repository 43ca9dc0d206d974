import ApiReference.Html.Entity
import ApiReference.Proofs.Text.Reading

/-!
# Entities are decoded

Decoding undoes escaping (`decode_escape`). Each of the five rules keeps the entities of the others, and no rule applies
to what another has written, since only `&` begins an entity.

The five passes do what one pass does (`decode_eq_decodeOnce`): at the front of a text either an entity stands, and is
replaced by both (`decode_entity`, `decodeOnce_entity`), or none does, and a character is kept by both (`decode_cons`,
`decodeOnce_cons`). For the five passes this takes that no rule makes an entity out of an `&` and what follows
(`rewrite_of_firstRules`).
-/

namespace ApiReference.Html.Entity

open Text (Rule after?)
open Text.Rule (Passes PassesAll)

/-- The rules of `decode`, in order. -/
def rules : List Rule :=
  [less, greater, doubleQuote, apostrophe, ampersand]

theorem decode_eq_foldl (s : Text) : decode s = rules.foldl (fun s rule => rule.rewrite s) s :=
  rfl

/-- An entity begins with `&`. -/
theorem beginsWith_ampersand : ∀ r ∈ rules, r.BeginsWith '&' := by
  simp only [rules, List.forall_mem_cons]
  refine ⟨?_, ?_, ?_, ?_, ?_, by simp⟩
  all_goals
    intro c s hc
    simp [less, greater, doubleQuote, apostrophe, ampersand, Rule.literal, Text.after?, Text.behind?, hc]

/-- An entity is kept up to its own rule, which writes its character. -/
theorem passesAll_entity : ∀ p ∈ table, PassesAll rules p.1 [p.2] := by
  simp only [table, List.forall_mem_cons]
  refine ⟨?_, ?_, ?_, ?_, ?_, by simp⟩
  · exact .mark [] [greater, doubleQuote, apostrophe, ampersand] beginsWith_ampersand (by decide)
      trivial (fun _ => rfl) (by decide)
  · exact .mark [less] [doubleQuote, apostrophe, ampersand] beginsWith_ampersand (by decide)
      ⟨fun _ => rfl, trivial⟩ (fun _ => rfl) (by decide)
  · exact .mark [less, greater] [apostrophe, ampersand] beginsWith_ampersand (by decide)
      ⟨fun _ => rfl, fun _ => rfl, trivial⟩ (fun _ => rfl) (by decide)
  · exact .mark [less, greater, doubleQuote] [ampersand] beginsWith_ampersand (by decide)
      ⟨fun _ => rfl, fun _ => rfl, fun _ => rfl, trivial⟩ (fun _ => rfl) (by decide)
  · show PassesAll ([less, greater, doubleQuote, apostrophe] ++ [ampersand]) _ _
    have h : Rule.NoneApplies [less, greater, doubleQuote, apostrophe] "&amp;".toList :=
      ⟨fun _ => rfl, fun _ => rfl, fun _ => rfl, fun _ => rfl, trivial⟩
    have hfirst : ∀ r ∈ [less, greater, doubleQuote, apostrophe], r.BeginsWith '&' := fun r hr =>
      beginsWith_ampersand r (List.mem_append_left [ampersand] hr)
    -- what its rule writes begins an entity again, so it has to be the last one
    exact .trans (.of_forall (h.passes hfirst (by decide))) ⟨_, .of_some fun _ => rfl, rfl⟩

/-- The text of a character is turned into the character. -/
theorem passesAll_escapeChar (c : Char) : PassesAll rules (escapeChar c) [c] := by
  unfold escapeChar
  split
  · rename_i entity d h
    have hd : d = c := by simpa using List.find?_some h
    subst hd
    exact passesAll_entity _ (List.mem_of_find?_eq_some h)
  · rename_i h
    have hc : '&' ≠ c := by
      rintro rfl
      simp [table] at h
    exact .of_not_mem beginsWith_ampersand (by simpa using hc)

/-- The text of escaped characters is turned into the characters. -/
theorem passesAll_escape : ∀ s : Text, PassesAll rules (escape s) s
  | [] => .nil rules
  | c :: s => (passesAll_escapeChar c).append (passesAll_escape s)

/-- **Decoding undoes escaping.** -/
theorem decode_escape (s : Text) : decode (escape s) = s := by
  rw [decode_eq_foldl, (passesAll_escape s).foldl_eq]

/-! ## One pass -/

theorem character_eq_none_iff (s : Text) : character? s = none ↔ ∀ p ∈ table, after? p.1 s = none := by
  simp [character?, List.findSome?_eq_none_iff]

/-- The character of an entity is found where the entity stands. -/
theorem character_append : ∀ p ∈ table, ∀ rest, character? (p.1 ++ rest) = some (p.2, rest) := by
  simp only [table, List.forall_mem_cons]
  exact ⟨fun _ => rfl, fun _ => rfl, fun _ => rfl, fun _ => rfl, fun _ => rfl, by simp⟩

/-- Where a character is found, its entity stands. -/
theorem eq_append_of_character {s rest : Text} {c : Char} (h : character? s = some (c, rest)) :
    ∃ p ∈ table, p.2 = c ∧ s = p.1 ++ rest := by
  obtain ⟨p, hp, h⟩ := List.exists_of_findSome?_eq_some h
  obtain ⟨rest', hafter, he⟩ := Option.map_eq_some_iff.mp h
  obtain ⟨hc, rfl⟩ := Prod.mk.inj he
  exact ⟨p, hp, hc, Text.eq_append_of_after hafter⟩

/-- An entity is `&` and a text without it. -/
theorem exists_entity_eq_cons : ∀ p ∈ table, ∃ name, p.1 = '&' :: name ∧ '&' ∉ name := by
  simp only [table, List.forall_mem_cons]
  exact ⟨⟨_, rfl, by decide⟩, ⟨_, rfl, by decide⟩, ⟨_, rfl, by decide⟩, ⟨_, rfl, by decide⟩, ⟨_, rfl, by decide⟩,
    List.forall_mem_nil _⟩

theorem decodeOnce_entity {p : Text × Char} (hp : p ∈ table) (s : Text) :
    decodeOnce (p.1 ++ s) = p.2 :: decodeOnce s := by
  have hany : any.atFront? (p.1 ++ s) = some ([p.2], s) := by simp [any, character_append p hp]
  exact Rule.rewrite_of_some hany

theorem decodeOnce_cons {c : Char} {s : Text} (h : character? (c :: s) = none) :
    decodeOnce (c :: s) = c :: decodeOnce s :=
  Rule.rewrite_of_none (by simp [any, h])

/-- No entity reaches over the `&` behind a text. -/
theorem character_append_cons (c : Char) (s t : Text) :
    character? (c :: s ++ '&' :: t) = (character? (c :: s)).map fun (d, rest) => (d, rest ++ '&' :: t) := by
  cases h : character? (c :: s) with
  | some read =>
    obtain ⟨d, rest⟩ := read
    obtain ⟨p, hp, rfl, hs⟩ := eq_append_of_character h
    rw [hs, List.append_assoc, character_append p hp]
    rfl
  | none =>
    rw [Option.map_none, character_eq_none_iff]
    intro p hp
    have hnone := (character_eq_none_iff _).mp h p hp
    obtain ⟨name, hname, hamp⟩ := exists_entity_eq_cons p hp
    rw [hname, List.cons_append, Text.after_cons]
    rw [hname, Text.after_cons] at hnone
    split
    · rw [if_pos ‹_›] at hnone
      rw [Text.after_append_cons hamp, hnone, Option.map_none]
    · rfl

theorem decodeOnce_append (s t : Text) : decodeOnce (s ++ '&' :: t) = decodeOnce s ++ decodeOnce ('&' :: t) := by
  refine Rule.rewrite_append_cons (fun c s t => ?_) s t
  show (character? _).map _ = ((character? _).map _).map _
  rw [character_append_cons, Option.map_map, Option.map_map]
  rfl

/-! ## One entity after another -/

/-- The rules of `decode` but for the last one, which alone writes a character that is in an entity. -/
def firstRules : List Rule :=
  [less, greater, doubleQuote, apostrophe]

theorem decode_eq_ampersand (s : Text) :
    decode s = ampersand.rewrite (firstRules.foldl (fun s rule => rule.rewrite s) s) :=
  rfl

/-- What the first rules write is in no entity. -/
theorem exists_of_firstRules : ∀ r ∈ firstRules, ∃ p ∈ table, (∀ q ∈ table, p.2 ∉ q.1) ∧
    ∀ s, r.atFront? s = (after? p.1 s).map ([p.2], ·) := by
  simp only [firstRules, List.forall_mem_cons]
  refine ⟨⟨("&lt;".toList, '<'), ?_⟩, ⟨("&gt;".toList, '>'), ?_⟩, ⟨("&quot;".toList, '"'), ?_⟩,
    ⟨("&#39;".toList, '\''), ?_⟩, by simp⟩
  all_goals exact ⟨by simp [table], by simp [table], fun _ => rfl⟩

/-- Where no entity stands none is made by the first rules: they keep the `&`, and what follows begins with the rest of
an entity only if it did before. -/
theorem rewrite_of_firstRules {r : Rule} (hr : r ∈ firstRules) {s : Text} (h : character? ('&' :: s) = none) :
    r.rewrite ('&' :: s) = '&' :: r.rewrite s ∧ character? ('&' :: r.rewrite s) = none := by
  obtain ⟨p, hp, hchar, hfront⟩ := exists_of_firstRules r hr
  have hnone := (character_eq_none_iff _).mp h
  refine ⟨Rule.rewrite_of_none (by rw [hfront, hnone p hp]; rfl), (character_eq_none_iff _).mpr fun q hq => ?_⟩
  obtain ⟨name, hname, hamp⟩ := exists_entity_eq_cons q hq
  have hwrites : ∀ s out rest, r.atFront? s = some (out, rest) → ∃ d t, out = d :: t ∧ d ∉ name := by
    intro s out rest hs
    rw [hfront] at hs
    obtain ⟨rest', -, he⟩ := Option.map_eq_some_iff.mp hs
    obtain ⟨rfl, -⟩ := Prod.mk.inj he
    exact ⟨p.2, [], rfl, fun hm => hchar q hq (hname ▸ List.mem_cons_of_mem _ hm)⟩
  have hq := hnone q hq
  rw [hname, Text.after_cons, if_pos rfl] at hq ⊢
  have hfirst : r ∈ rules := List.mem_append_left [ampersand] hr
  exact (Rule.behind_rewrite (beginsWith_ampersand r hfirst) hamp hwrites s).trans (congrArg _ hq)

theorem foldl_firstRules : ∀ rs : List Rule, (∀ r ∈ rs, r ∈ firstRules) → ∀ s : Text, character? ('&' :: s) = none →
    rs.foldl (fun s rule => rule.rewrite s) ('&' :: s) = '&' :: rs.foldl (fun s rule => rule.rewrite s) s ∧
      character? ('&' :: rs.foldl (fun s rule => rule.rewrite s) s) = none
  | [], _, _, h => ⟨rfl, h⟩
  | r :: rs, hrs, s, h => by
    obtain ⟨hkeep, hnone⟩ := rewrite_of_firstRules (hrs r List.mem_cons_self) h
    rw [List.foldl_cons, hkeep, List.foldl_cons]
    exact foldl_firstRules rs (fun r hr => hrs r (List.mem_cons_of_mem _ hr)) _ hnone

theorem decode_entity {p : Text × Char} (hp : p ∈ table) (s : Text) : decode (p.1 ++ s) = p.2 :: decode s := by
  rw [decode_eq_foldl, (passesAll_entity p hp).foldl_append]
  rfl

/-- A character at which no entity stands is kept. -/
theorem decode_cons {c : Char} {s : Text} (h : character? (c :: s) = none) : decode (c :: s) = c :: decode s := by
  by_cases hc : c = '&'
  · subst hc
    obtain ⟨hkeep, hnone⟩ := foldl_firstRules firstRules (fun _ hr => hr) s h
    have hlast : ampersand.atFront? ('&' :: firstRules.foldl (fun s rule => rule.rewrite s) s) = none := by
      rw [ampersand, Rule.literal, Option.map_eq_none_iff]
      exact (character_eq_none_iff _).mp hnone ("&amp;".toList, '&') (by simp [table])
    rw [decode_eq_ampersand, hkeep, Rule.rewrite_of_none hlast, decode_eq_ampersand]
  · have hkeep : PassesAll rules [c] [c] := .of_not_mem beginsWith_ampersand (by simpa using Ne.symm hc)
    exact hkeep.foldl_append s

theorem decode_eq_decodeOnce (s : Text) : decode s = decodeOnce s := by
  induction s using any.rewrite_induction with
  | nil => rw [decode_eq_foldl, (PassesAll.nil rules).foldl_eq, decodeOnce, Rule.rewrite_nil]
  | apply s out rest hs ih =>
    obtain ⟨⟨c, rest'⟩, hread, he⟩ := Option.map_eq_some_iff.mp hs
    obtain ⟨rfl, rfl⟩ := Prod.mk.inj he
    obtain ⟨p, hp, rfl, rfl⟩ := eq_append_of_character hread
    rw [decode_entity hp, decodeOnce_entity hp, ih]
  | keep c s hs ih =>
    have hnone : character? (c :: s) = none := Option.map_eq_none_iff.mp hs
    rw [decode_cons hnone, decodeOnce_cons hnone, ih]

/-- **Decoding reads every entity once, where it stands**: replacing one entity after another in the whole text gives
what one pass over the text gives. An entity is replaced whatever stands around it, and what it is replaced by is part
of no other. So decoding undoes escaping. -/
theorem decode_in_one_pass (s : Text) :
    decode s = decodeOnce s ∧
      (∀ p ∈ table, ∀ front, decode (front ++ p.1 ++ s) = decode front ++ p.2 :: decode s) ∧
      decode (escape s) = s := by
  refine ⟨decode_eq_decodeOnce s, fun p hp front => ?_, decode_escape s⟩
  obtain ⟨name, hname, -⟩ := exists_entity_eq_cons p hp
  have hentity := decodeOnce_entity hp s
  rw [hname, List.cons_append] at hentity
  rw [decode_eq_decodeOnce, decode_eq_decodeOnce front, decode_eq_decodeOnce s, hname, List.append_assoc,
    List.cons_append, decodeOnce_append, hentity]

/-- An entity inside another one: only the inner one is read, and what it is replaced by completes nothing. -/
theorem decode_in_one_pass_split_entity :
    ("&lt;".toList, '<') ∈ table ∧
      decode ("&am".toList ++ "&lt;".toList ++ "p;&amp;gt;".toList) = "&am<p;&gt;".toList := by
  have hmem : ("&lt;".toList, '<') ∈ table := by simp [table]
  have hparts : decode "&am".toList ++ '<' :: decode "p;&amp;gt;".toList = "&am<p;&gt;".toList := by decide +kernel
  exact ⟨hmem, ((decode_in_one_pass "p;&amp;gt;".toList).2.1 _ hmem "&am".toList).trans hparts⟩

end ApiReference.Html.Entity
