import Mathlib.Logic.Function.Basic

/-!
# The differences of two sectioned lists: `Diff`

Every animated list of the app is updated through `differencesForSectionedView`. The loops are
folds here, a dictionary is a partial function on identities, and the arrays of associated data
are functions on the indices of the sections and on the paths of the items.
-/
namespace Karupasu.Differentiator

class IdentifiableType (α : Type) (Identity : outParam Type) where
  identity : α → Identity

export IdentifiableType (identity)

structure AnimatableSectionModel (Model Item : Type) where
  model : Model
  items : List Item

structure ItemPath where
  sectionIndex : Nat
  itemIndex : Nat
  deriving DecidableEq

structure Changeset (Section : Type) where
  finalSections : List Section
  insertedSections : List Nat := []
  deletedSections : List Nat := []
  movedSections : List (Nat × Nat) := []
  insertedItems : List ItemPath := []
  deletedItems : List ItemPath := []
  movedItems : List (ItemPath × ItemPath) := []
  updatedItems : List ItemPath := []

namespace Diff

inductive Error (Model Item : Type) where
  | duplicateItem (item : Item)
  | duplicateSection (sec : AnimatableSectionModel Model Item)
  | invalidInitializerImplementation
  | unwrappingOptional
  | preconditionFailed (message : String)
  /-- A subscript out of range, which ends the process. -/
  | trap

inductive EditEvent where
  | inserted | insertedAutomatically | deleted | deletedAutomatically
  | moved | movedAutomatically | untouched
  deriving DecidableEq

structure SectionAssociatedData where
  event : EditEvent := .untouched
  indexAfterDelete : Option Nat := none
  moveIndex : Option Nat := none
  itemCount : Nat := 0

structure ItemAssociatedData where
  event : EditEvent := .untouched
  indexAfterDelete : Option Nat := none
  moveIndex : Option ItemPath := none

/-- The data of the initial and of the final sections. -/
structure SectionData where
  initial : Nat → SectionAssociatedData := fun _ => {}
  final : Nat → SectionAssociatedData := fun _ => {}

/-- The data of the initial and of the final items. -/
structure ItemData where
  initial : ItemPath → ItemAssociatedData := fun _ => {}
  final : ItemPath → ItemAssociatedData := fun _ => {}

variable {Model Item SId IId : Type} [IdentifiableType Model SId] [IdentifiableType Item IId]
variable [DecidableEq SId] [DecidableEq IId] [BEq Item]

/-- `fileprivate init(safeOriginal:safeItems:)` -/
def safeInit (original : AnimatableSectionModel Model Item) (items : List Item) :
    Except (Error Model Item) (AnimatableSectionModel Model Item) :=
  let sec : AnimatableSectionModel Model Item := ⟨original.model, items⟩
  if sec.items != items || decide (identity sec.model ≠ identity original.model) then
    throw .invalidInitializerImplementation
  else pure sec

def precondition (condition : Bool) (message : String) : Except (Error Model Item) Unit :=
  if condition then pure () else throw (.preconditionFailed message)

def unwrap {α : Type} : Option α → Except (Error Model Item) α
  | some a => pure a
  | none => throw .unwrappingOptional

/-- The first untouched index from `start` on, below `count`. -/
def findNextUntouchedOldIndex (event : Nat → EditEvent) (count : Nat) : Option Nat → Option Nat
  | none => none
  | some start => (List.range' start (count - start)).find? fun i => event i = .untouched

/-! ## Sections -/

def indexSection (indexed : SId → Option Nat) (p : AnimatableSectionModel Model Item × Nat) :
    Except (Error Model Item) (SId → Option Nat) :=
  match indexed (identity p.1.model) with
  | some _ => throw (.duplicateSection p.1)
  | none => pure (Function.update indexed (identity p.1.model) (some p.2))

def indexSections (sections : List (AnimatableSectionModel Model Item)) :
    Except (Error Model Item) (SId → Option Nat) :=
  sections.zipIdx.foldlM indexSection fun _ => none

/-- A final section and the initial section of its identity point to each other. -/
def linkSection (indexes : SId → Option Nat) (d : SectionData)
    (p : AnimatableSectionModel Model Item × Nat) : Except (Error Model Item) SectionData :=
  let final := Function.update d.final p.2 { d.final p.2 with itemCount := p.1.items.length }
  match indexes (identity p.1.model) with
  | none => pure { d with final := final }
  | some k =>
    if (d.initial k).moveIndex.isSome then throw (.duplicateSection p.1)
    else pure {
      initial := Function.update d.initial k { d.initial k with moveIndex := some p.2 }
      final := Function.update final p.2 { final p.2 with moveIndex := some k } }

/-- One turn over the initial sections, with the index after the deletions. -/
def markDeletedSection (s : (Nat → SectionAssociatedData) × Nat)
    (p : AnimatableSectionModel Model Item × Nat) : (Nat → SectionAssociatedData) × Nat :=
  let data := { s.1 p.2 with itemCount := p.1.items.length }
  match data.moveIndex with
  | none => (Function.update s.1 p.2 { data with event := .deleted }, s.2)
  | some _ => (Function.update s.1 p.2 { data with indexAfterDelete := some s.2 }, s.2 + 1)

/-- One turn over the final sections, with the untouched index. -/
def placeSection (initialCount : Nat) (s : Option Nat × SectionData) (i : Nat) :
    Option Nat × SectionData :=
  let untouched := findNextUntouchedOldIndex (fun k => (s.2.initial k).event) initialCount s.1
  match (s.2.final i).moveIndex with
  | some old =>
    let moveType : EditEvent := if some old ≠ untouched then .moved else .movedAutomatically
    (untouched, {
      initial := Function.update s.2.initial old { s.2.initial old with event := moveType }
      final := Function.update s.2.final i { s.2.final i with event := moveType } })
  | none =>
    (untouched, { s.2 with
      final := Function.update s.2.final i { s.2.final i with event := .inserted } })

def calculateSectionMovements (initialSections finalSections : List (AnimatableSectionModel Model Item)) :
    Except (Error Model Item) SectionData := do
  let indexes ← indexSections initialSections
  let linked ← finalSections.zipIdx.foldlM (linkSection indexes) {}
  let deleted := initialSections.zipIdx.foldl markDeletedSection (linked.initial, 0)
  return ((List.range finalSections.length).foldl (placeSection initialSections.length)
    (some 0, { linked with initial := deleted.1 })).2

/-! ## Items -/

/-- The items with their paths, section by section. -/
def itemPaths (cache : List (List Item)) : List (Item × ItemPath) :=
  cache.zipIdx.flatMap fun p => p.1.zipIdx.map fun q => (q.1, ⟨p.2, q.2⟩)

/-- `cache[path.sectionIndex][path.itemIndex]` -/
def itemAt (cache : List (List Item)) (path : ItemPath) : Except (Error Model Item) Item :=
  match cache[path.sectionIndex]?.bind (·[path.itemIndex]?) with
  | some item => pure item
  | none => throw .trap

def indexItem (initialItemCache : List (List Item)) (dictionary : IId → Option ItemPath)
    (p : Item × ItemPath) : Except (Error Model Item) (IId → Option ItemPath) :=
  match dictionary (identity p.1) with
  | some path => do
    let item ← itemAt initialItemCache path
    throw (.duplicateItem item)
  | none => pure (Function.update dictionary (identity p.1) (some p.2))

def linkItem (dictionary : IId → Option ItemPath) (d : ItemData) (p : Item × ItemPath) :
    Except (Error Model Item) ItemData :=
  match dictionary (identity p.1) with
  | none => pure d
  | some q =>
    if (d.initial q).moveIndex.isSome then throw (.duplicateItem p.1)
    else pure {
      initial := Function.update d.initial q { d.initial q with moveIndex := some p.2 }
      final := Function.update d.final p.2 { d.final p.2 with moveIndex := some q } }

def calculateAssociatedData (initialItemCache finalItemCache : List (List Item)) :
    Except (Error Model Item) ItemData := do
  let dictionary ← (itemPaths initialItemCache).foldlM (indexItem initialItemCache) fun _ => none
  (itemPaths finalItemCache).foldlM (linkItem dictionary) {}

/-- One turn over the items of the initial section `i`, with the index after the deletions. -/
def markDeletedItem (sections : SectionData) (i : Nat) (s : (ItemPath → ItemAssociatedData) × Nat)
    (j : Nat) : (ItemPath → ItemAssociatedData) × Nat :=
  let path : ItemPath := ⟨i, j⟩
  let delete := (Function.update s.1 path { s.1 path with event := .deleted }, s.2)
  match (s.1 path).moveIndex with
  | none => delete
  | some final =>
    -- there is no move to an inserted section
    if (sections.final final.sectionIndex).event = .inserted then delete
    else (Function.update s.1 path { s.1 path with indexAfterDelete := some s.2 }, s.2 + 1)

def markDeletedItems (sections : SectionData) (data : ItemPath → ItemAssociatedData)
    (p : List Item × Nat) : ItemPath → ItemAssociatedData :=
  match (sections.initial p.2).moveIndex with
  | none => data
  | some _ => ((List.range p.1.length).foldl (markDeletedItem sections p.2) (data, 0)).1

/-- One turn over the items of the final section `i`, which comes from the section `old`. -/
def placeItem (sections : SectionData) (i old : Nat) (s : Option Nat × ItemData) (j : Nat) :
    Except (Error Model Item) (Option Nat × ItemData) := do
  let untouched := findNextUntouchedOldIndex (fun k => (s.2.initial ⟨old, k⟩).event)
    (sections.initial old).itemCount s.1
  let path : ItemPath := ⟨i, j⟩
  let insert := (untouched, { s.2 with
    final := Function.update s.2.final path { s.2.final path with event := .inserted } })
  match (s.2.final path).moveIndex with
  | none => return insert
  | some original =>
    let initialSectionEvent := (sections.initial original.sectionIndex).event
    -- a move from a deleted section would crash the table view
    if initialSectionEvent = .deleted then return insert
    if initialSectionEvent = .inserted then
      precondition false "New section in initial sections, that is wrong"
    precondition (initialSectionEvent = .moved || initialSectionEvent = .movedAutomatically)
      "Section not moved"
    let eventType : EditEvent :=
      if original.sectionIndex = old ∧ some original.itemIndex = untouched then .movedAutomatically
      else .moved
    return (untouched, {
      initial := Function.update s.2.initial original
        { s.2.initial original with event := eventType }
      final := Function.update s.2.final path { s.2.final path with event := eventType } })

def placeItems (sections : SectionData) (d : ItemData) (p : List Item × Nat) :
    Except (Error Model Item) ItemData :=
  match (sections.final p.2).moveIndex with
  | none => return d
  | some old => do
    let s ← (List.range p.1.length).foldlM (placeItem sections p.2 old) (some 0, d)
    return s.2

def calculateItemMovements (initialItemCache finalItemCache : List (List Item))
    (sections : SectionData) : Except (Error Model Item) ItemData := do
  let linked ← calculateAssociatedData initialItemCache finalItemCache
  let deleted := initialItemCache.zipIdx.foldl (markDeletedItems sections) linked.initial
  finalItemCache.zipIdx.foldlM (placeItems sections) { linked with initial := deleted }

/-! ## Changesets -/

structure CommandGenerator (Model Item : Type) where
  initialSections : List (AnimatableSectionModel Model Item)
  finalSections : List (AnimatableSectionModel Model Item)
  sections : SectionData
  items : ItemData

def generatorForInitialSections (initialSections finalSections : List (AnimatableSectionModel Model Item)) :
    Except (Error Model Item) (CommandGenerator Model Item) := do
  let sections ← calculateSectionMovements initialSections finalSections
  let items ← calculateItemMovements (initialSections.map (·.items)) (finalSections.map (·.items))
    sections
  return ⟨initialSections, finalSections, sections, items⟩

namespace CommandGenerator

variable (g : CommandGenerator Model Item)

def finalItemCache : List (List Item) := g.finalSections.map (·.items)

def finalItem (path : ItemPath) : Except (Error Model Item) Item :=
  itemAt g.finalItemCache path

/-- What the first stage collects for one section. -/
structure ItemDeletions (Item : Type) where
  deletedItems : List ItemPath := []
  updatedItems : List ItemPath := []
  afterDeleteItems : List Item := []

def deleteItem (i : Nat) (s : ItemDeletions Item) (p : Item × Nat) :
    Except (Error Model Item) (ItemDeletions Item) := do
  let path : ItemPath := ⟨i, p.2⟩
  let data := g.items.initial path
  match data.event with
  | .deleted => return { s with deletedItems := s.deletedItems ++ [path] }
  | .moved | .movedAutomatically =>
    let finalItemIndex ← unwrap data.moveIndex
    let finalItem ← g.finalItem finalItemIndex
    return { s with
      updatedItems := if finalItem != p.1 then s.updatedItems ++ [path] else s.updatedItems
      afterDeleteItems := s.afterDeleteItems ++ [finalItem] }
  | _ =>
    precondition false "Unhandled case"
    return s

def deleteSection (s : List Nat × List ItemPath × List ItemPath × List (AnimatableSectionModel Model Item))
    (p : AnimatableSectionModel Model Item × Nat) :
    Except (Error Model Item)
      (List Nat × List ItemPath × List ItemPath × List (AnimatableSectionModel Model Item)) := do
  let (deletedSections, deletedItems, updatedItems, afterDeleteState) := s
  if (g.sections.initial p.2).event = .deleted then
    return (deletedSections ++ [p.2], deletedItems, updatedItems, afterDeleteState)
  let d ← p.1.items.zipIdx.foldlM (g.deleteItem p.2) {}
  let sec ← safeInit p.1 d.afterDeleteItems
  return (deletedSections, deletedItems ++ d.deletedItems, updatedItems ++ d.updatedItems,
    afterDeleteState ++ [sec])

def generateDeleteSectionsDeletedItemsAndUpdatedItems :
    Except (Error Model Item) (List (Changeset (AnimatableSectionModel Model Item))) := do
  let (deletedSections, deletedItems, updatedItems, afterDeleteState) ←
    g.initialSections.zipIdx.foldlM g.deleteSection ([], [], [], [])
  if deletedItems.isEmpty && deletedSections.isEmpty && updatedItems.isEmpty then return []
  return [{ finalSections := afterDeleteState, deletedSections, deletedItems, updatedItems }]

def moveSection (movedSections : List (Nat × Nat)) (i : Nat) :
    Except (Error Model Item) (List (Nat × Nat)) := do
  let data := g.sections.initial i
  match data.event with
  | .deleted | .movedAutomatically => return movedSections
  | .moved =>
    let source ← unwrap data.indexAfterDelete
    let target ← unwrap data.moveIndex
    return movedSections ++ [(source, target)]
  | _ =>
    precondition false "Unhandled case in initial sections"
    return movedSections

/-- The items of an initial section that are not deleted, as they are in the final sections. -/
def keepItem (original : Nat) (items : List Item) (j : Nat) :
    Except (Error Model Item) (List Item) := do
  let data := g.items.initial ⟨original, j⟩
  if data.event = .deleted then return items
  match data.moveIndex with
  | none =>
    precondition false "Item was moved, but no final location."
    return items
  | some finalIndex => return items ++ [← g.finalItem finalIndex]

def sectionAfterChange (p : AnimatableSectionModel Model Item × Nat) :
    Except (Error Model Item) (AnimatableSectionModel Model Item) := do
  let data := g.sections.final p.2
  match data.event with
  | .inserted => return p.1
  | .moved | .movedAutomatically =>
    let originalSectionIndex ← unwrap data.moveIndex
    match g.initialSections[originalSectionIndex]? with
    | none => throw .trap
    | some originalSection =>
      let items ← (List.range originalSection.items.length).foldlM
        (g.keepItem originalSectionIndex) []
      safeInit p.1 items
  | _ =>
    precondition false "This is weird, this shouldn't happen"
    return p.1

def generateInsertAndMoveSections :
    Except (Error Model Item) (List (Changeset (AnimatableSectionModel Model Item))) := do
  let movedSections ← (List.range g.initialSections.length).foldlM g.moveSection []
  let insertedSections := (List.range g.finalSections.length).filter fun i =>
    (g.sections.final i).event = .inserted
  if insertedSections.isEmpty && movedSections.isEmpty then return []
  let sectionsAfterChange ← g.finalSections.zipIdx.mapM g.sectionAfterChange
  return [{ finalSections := sectionsAfterChange, insertedSections, movedSections }]

def insertItem (i : Nat) (s : List ItemPath × List (ItemPath × ItemPath)) (j : Nat) :
    Except (Error Model Item) (List ItemPath × List (ItemPath × ItemPath)) := do
  let path : ItemPath := ⟨i, j⟩
  let data := g.items.final path
  precondition (data.event ≠ .untouched) "Current event is not untouched"
  match data.event with
  | .inserted => return (s.1 ++ [path], s.2)
  | .moved =>
    let originalIndex ← unwrap data.moveIndex
    let finalSectionIndex ← unwrap (g.sections.initial originalIndex.sectionIndex).moveIndex
    let moveFromItemWithIndex ← unwrap (g.items.initial originalIndex).indexAfterDelete
    return (s.1, s.2 ++ [(⟨finalSectionIndex, moveFromItemWithIndex⟩, path)])
  | _ => return s

def insertItems (s : List ItemPath × List (ItemPath × ItemPath))
    (p : AnimatableSectionModel Model Item × Nat) :
    Except (Error Model Item) (List ItemPath × List (ItemPath × ItemPath)) :=
  let sectionEvent := (g.sections.final p.2).event
  -- new sections reload by themselves
  if sectionEvent ≠ .moved ∧ sectionEvent ≠ .movedAutomatically then pure s
  else (List.range p.1.items.length).foldlM (g.insertItem p.2) s

def generateInsertAndMovedItems :
    Except (Error Model Item) (List (Changeset (AnimatableSectionModel Model Item))) := do
  let (insertedItems, movedItems) ← g.finalSections.zipIdx.foldlM g.insertItems ([], [])
  if insertedItems.isEmpty && movedItems.isEmpty then return []
  return [{ finalSections := g.finalSections, insertedItems, movedItems }]

end CommandGenerator

def differencesForSectionedView (initialSections finalSections : List (AnimatableSectionModel Model Item)) :
    Except (Error Model Item) (List (Changeset (AnimatableSectionModel Model Item))) := do
  let sectionCommands ← generatorForInitialSections initialSections finalSections
  let deletions ← sectionCommands.generateDeleteSectionsDeletedItemsAndUpdatedItems
  let sectionMoves ← sectionCommands.generateInsertAndMoveSections
  let itemMoves ← sectionCommands.generateInsertAndMovedItems
  return deletions ++ sectionMoves ++ itemMoves

end Diff
end Karupasu.Differentiator
