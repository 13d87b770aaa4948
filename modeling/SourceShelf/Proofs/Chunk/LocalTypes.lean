import Mathlib.Data.List.Flatten
import SourceShelf.Proofs.Chunk.Stream
import SourceShelf.Proofs.Java.Pruning

/-!
# Chunks without local types

Leaving local types out of a unit leaves out their chunks and changes no other one.  A
chunk says of its type only what stands in the text and the names of the types around
it, and both are the same in either unit (`chunksOf_moved`).

* `local_types_filtered`: the unit, its chunks and its types without a parent.
-/

namespace SourceShelf.Java

section Unit

variable {text : String} {path : Option String} {parts : List Tree}

/-- A kept type gives the same chunks in either unit. -/
theorem chunksOf_moved (o : ChunkOptions) {i : Nat} {t : TypeDeclaration}
    (ht : (Outline.unit true text path parts).types[i]? = some t)
    (hi : (Outline.unit true text path parts).isKept i = true) :
    chunksOf o (Outline.unit true text path parts).withoutLocals
        (t.moved (Outline.unit true text path parts).isKept
          (rank (Outline.unit true text path parts).isKept)) =
      chunksOf o (Outline.unit true text path parts) t := by
  have hsame : typeChunks o (Outline.unit true text path parts).withoutLocals
      (t.moved (Outline.unit true text path parts).isKept
        (rank (Outline.unit true text path parts).isKept)) =
      typeChunks o (Outline.unit true text path parts) t := by
    unfold typeChunks
    rw [Outline.qualifiedName_withoutLocals ht hi]
    unfold TypeDeclaration.moved
    simp only [List.map_map]
    rfl
  rw [chunksOf, hsame, chunksOf]

/-- The kept types give the same chunks in either unit. -/
theorem flatMap_chunksOf_moved (o : ChunkOptions) :
    (Outline.unit true text path parts).withoutLocals.types.flatMap
        (chunksOf o (Outline.unit true text path parts).withoutLocals) =
      (Outline.unit true text path parts).keptTypes.flatMap
        (chunksOf o (Outline.unit true text path parts)) := by
  unfold CompilationUnit.withoutLocals CompilationUnit.keptTypes
  dsimp only
  rw [List.flatMap_map, List.flatMap_map, List.flatMap_map]
  refine List.flatMap_congr fun t ht => ?_
  obtain ⟨ht, hkept⟩ := List.mem_filter.mp ht
  exact chunksOf_moved o (List.mem_zipIdx_iff_getElem?.mp ht) hkept

end Unit

theorem CompilationUnit.keptTypes_sublist (u : CompilationUnit) :
    u.keptTypes.Sublist u.types := by
  have hall : u.types.zipIdx.map Prod.fst = u.types := List.zipIdx_map_fst 0 u.types
  have hsub := (List.filter_sublist (p := fun t => u.isKept t.2) (l := u.types.zipIdx)).map Prod.fst
  rwa [hall] at hsub

/-- Leaving local types out is a filter.  The unit of a text without them is that with
all types, without those whose chain of parents does not end in the file itself; its
chunks are those of the kept types, as they are in the full list; and its types without
a parent are those of the file itself. -/
theorem local_types_filtered (text : String) (path : Option String) :
    parse text path false = (parse text path true).map CompilationUnit.withoutLocals ∧
    ∀ u, parse text path true = .ok u → ∀ o,
      (∀ t ∈ u.types, typeChunks o u t = .ok (chunksOf o u t)) ∧
      u.chunks o = { chunks := u.types.flatMap (chunksOf o u) } ∧
      u.withoutLocals.chunks o = { chunks := u.keptTypes.flatMap (chunksOf o u) } ∧
      (u.withoutLocals.chunks o).chunks.Sublist (u.chunks o).chunks ∧
      ∀ i t, u.withoutLocals.types[i]? = some t →
        (t.parent = none ↔ i ∈ u.withoutLocals.topLevel) := by
  have hparse : parse text path false =
      (parse text path true).map CompilationUnit.withoutLocals := by
    unfold parse SyntaxTree.read
    cases (SyntaxTree.ofText text).firstFault? with
    | some fault => rfl
    | none => exact congrArg Except.ok (Outline.unit_pruned text path _)
  refine ⟨hparse, fun u hu o => ?_⟩
  have hwithout : parse text path false = .ok u.withoutLocals := by rw [hparse, hu]; rfl
  have hchunks := chunks_eq_of_parse hu o
  have hkept : u.withoutLocals.chunks o = { chunks := u.keptTypes.flatMap (chunksOf o u) } := by
    rw [chunks_eq_of_parse hwithout]
    obtain ⟨-, rfl⟩ := parse_ok hu
    rw [flatMap_chunksOf_moved]
  refine ⟨typeChunks_of_parse hu o, hchunks, hkept, ?_, ?_⟩
  · rw [hkept, hchunks]
    exact u.keptTypes_sublist.flatMap _
  · obtain ⟨-, rfl⟩ := parse_ok hu
    rw [← Outline.unit_pruned]
    exact fun i t => Outline.parent_eq_none_iff

/-- A text with a local type beside a nested one, read without local types. -/
theorem local_types_filtered_nesting :
    let u := nestingUnit
    parse nestingText none true = .ok u ∧ parse nestingText none false = .ok u.withoutLocals ∧
      u.types.map (·.name) = ["A", "L", "B"] ∧ u.withoutLocals.types.map (·.name) = ["A", "B"] ∧
      u.withoutLocals.chunks {} = { chunks := u.keptTypes.flatMap (chunksOf {} u) } ∧
      (u.withoutLocals.chunks {}).chunks.Sublist (u.chunks {}).chunks ∧
      ∀ i t, u.withoutLocals.types[i]? = some t →
        (t.parent = none ↔ i ∈ u.withoutLocals.topLevel) := by
  intro u
  obtain ⟨hparse, hunit⟩ := local_types_filtered nestingText none
  obtain ⟨-, -, hkept, hsub, hparents⟩ := hunit u parse_nesting {}
  refine ⟨parse_nesting, ?_, by decide, by decide +kernel, hkept, hsub, hparents⟩
  rw [hparse, parse_nesting]
  rfl

end SourceShelf.Java
