import ApiReference.Proofs.Document.Appending
import ApiReference.Proofs.Markdown.TableRoundTrip

/-!
# The tables of an entry are read back

The heading of a section names the parameters, and a table lists them with their types and descriptions; another table
lists the properties. Whatever stands in the fields, a reader of the tables finds one row of three cells for each tag,
in the order of the tags (`readTable_appendEntry`): the cells of a field are its own texts but for their line breaks
(`fieldCells`).
-/

namespace ApiReference

/-! ## Tags of fields -/

namespace Tag

/-- Whether a tag documents a parameter. -/
def isParam : Tag → Bool
  | .param _ => true
  | _ => false

/-- Whether a tag documents a property. -/
def isProperty : Tag → Bool
  | .property _ => true
  | _ => false

end Tag

namespace Entry

/-- The tags of a kind are those that give a field, if a tag is found again from the field it gives. -/
theorem filter_eq_map_filterMap {select : Tag → Option FieldDoc} {make : FieldDoc → Tag} {isKind : Tag → Bool}
    (h : ∀ t, (select t).map make = Option.guard isKind t) (tags : List Tag) :
    tags.filter isKind = (tags.filterMap select).map make := by
  rw [List.map_filterMap, ← List.filterMap_eq_filter]
  exact congrArg (List.filterMap · tags) (funext fun t => (h t).symm)

theorem filter_isParam (e : Entry) : e.tags.filter Tag.isParam = e.params.map .param :=
  filter_eq_map_filterMap (fun t => by cases t <;> rfl) e.tags

theorem filter_isProperty (e : Entry) : e.tags.filter Tag.isProperty = e.properties.map .property :=
  filter_eq_map_filterMap (fun t => by cases t <;> rfl) e.tags

end Entry

namespace Document

open Markdown (foldBreaks readTable)

/-! ## The cells of a field -/

/-- The types of a field as they are shown: a type expression in braces with a slash for each pipe, else the types. -/
def shownTypes (field : FieldDoc) : Text :=
  if field.typeExpr.head? = some '\x7b' then field.typeExpr.map fun c => if c = '|' then '/' else c
  else List.intercalate [','] field.types

/-- The three cells that are read back for a field. -/
def fieldCells (field : FieldDoc) : List Text :=
  [foldBreaks field.name, foldBreaks (shownTypes field),
    foldBreaks ((if field.optional then "_optional:_ ".toList else []) ++ Html.toMarkdown field.description)]

theorem typeCell_eq (field : FieldDoc) : typeCell field = shownTypes field := by
  unfold typeCell shownTypes
  split
  · rename_i s h
    rw [if_pos (by rw [h]; rfl)]
  · rename_i h
    refine (if_neg fun hhead => ?_).symm
    obtain ⟨s, hs⟩ := List.head?_eq_some_iff.mp hhead
    exact h s hs

theorem map_foldBreaks_fieldRow (field : FieldDoc) : (fieldRow field).map foldBreaks = fieldCells field := by
  rw [fieldRow, typeCell_eq]
  rfl

/-! ## The parts of a section -/

/-- A section on fields: nothing if there are none, else a heading, an empty line and a table from which a header and
the cells of each field are read. -/
inductive FieldsSection (title column : Text) : List FieldDoc → Text → Prop
  | none : FieldsSection title column [] []
  | table {fields : List FieldDoc} {table : Text} (hne : fields ≠ [])
      (hread : readTable table =
        [column, "type".toList, "description".toList] :: ["---".toList, "---".toList, "---".toList] ::
          fields.map fieldCells) :
      FieldsSection title column fields ("### ".toList ++ title ++ "\n\n".toList ++ table ++ "\n\n".toList)

theorem fieldsSection_appendFields {title column : Text} (hcolumn : foldBreaks column = column)
    (fields : List FieldDoc) : FieldsSection title column fields (appendFields [] title column fields) := by
  cases fields with
  | nil => exact .none
  | cons field fields =>
    refine .table (List.cons_ne_nil _ _) ?_
    have hwidth : 1 ≤ [column, "type".toList, "description".toList].length := Nat.le_add_left 1 2
    have hrows : ∀ f ∈ field :: fields, Markdown.fittedRow 3 (fieldRow f) = fieldCells f := by
      intro f _
      rw [← map_foldBreaks_fieldRow]
      exact Markdown.fittedRow_length (fieldRow f)
    rw [Markdown.readTable_eq hwidth, Markdown.fittedRows_eq, List.map_map]
    show [foldBreaks column, _, _] :: _ = _
    rw [hcolumn]
    exact congrArg (_ :: _ :: ·) (List.map_congr_left hrows)

/-- **The fields of an entry are read back from its section**: their tables have a row of three cells for each tag of a
parameter and of a property, in order, whatever stands in the tags. The parameters are named in the heading, in the
same order; without one the heading has no parentheses, and there is no table. -/
theorem readTable_appendEntry (document name : Text) (e : Entry) :
    ∃ (params properties : List FieldDoc) (paramsText propertiesText : Text),
      e.tags.filter Tag.isParam = params.map .param ∧ e.tags.filter Tag.isProperty = properties.map .property ∧
      FieldsSection "Parameters".toList "param".toList params paramsText ∧
      FieldsSection "Properties".toList "property".toList properties propertiesText ∧
      appendEntry document name e =
        document ++ ("### ".toList ++ name ++
          (if params = [] then [] else ['('] ++ List.intercalate ", ".toList (params.map FieldDoc.name) ++ [')']) ++
          "\n\n".toList) ++
        appendParagraph [] ((e.description.map Description.full).getD []) ++ paramsText ++ propertiesText ++
        appendSamples [] e.samples ++ appendReturns [] e.returns? := by
  refine ⟨e.params, e.properties, _, _, e.filter_isParam, e.filter_isProperty, fieldsSection_appendFields rfl _,
    fieldsSection_appendFields rfl _, ?_⟩
  rw [appendEntry_eq, appendEntry_eq_parts, appendHeading_eq]
  simp only [List.append_assoc]
  rfl

end Document

end ApiReference
