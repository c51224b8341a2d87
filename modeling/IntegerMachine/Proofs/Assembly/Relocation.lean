import IntegerMachine.Proofs.Assembly.Layout
import Mathlib.Data.List.Nodup

/-!
# Sources assembled apart

What stands in front of a script moves its labels, and nothing else: its statements are laid out as
they are, and each of its references is to a place that many words further on
(`layout_append_of_apart`).  Two scripts that are sound and share no label are sound together, so
sources may be assembled apart and their words put together, if the words of the references are
moved: `assemble_append`.
-/

set_option autoImplicit false

namespace IntegerMachine.Assembly

/-! ## Moved words -/

/-- The word of an item that is moved up by a distance: that of a reference grows, any other stays
as it is. -/
def Item.moved (distance : Nat) : Item → Int → Int
  | word _, value => value
  | reference _, value => value + distance

/-- The words of items that are moved up by a distance. -/
def relocated (distance : Nat) (items : List Item) (words : List Int) : List Int :=
  List.zipWith (Item.moved distance) items words

/-- A label that does not stand in front stands behind all that does. -/
theorem offsetOf_append_of_not_mem {first : Script} (second : Script) {name : List Char}
    (h : name ∉ labelsOf first) :
    offsetOf (first ++ second) name = extent first + offsetOf second name := by
  unfold offsetOf
  rw [List.takeWhile_append_of_pos, extent_append]
  intro entry hmem
  have hne : definition? entry ≠ some name := fun hentry =>
    h (mem_labelsOf_iff.mpr ⟨entry, hmem, hentry⟩)
  simpa using hne

/-- An item that refers only to labels of the first script has in both the word it had there. -/
theorem wordIn_append_of_mem {first : Script} (second : Script) {item : Item}
    (h : ∀ name, item.target? = some name → name ∈ labelsOf first) :
    item.wordIn (first ++ second) = item.wordIn first := by
  cases item with
  | word value => rfl
  | reference name =>
    simp only [Item.wordIn]
    rw [offsetOf_append_of_mem second (h name rfl)]

/-- An item that refers to no label of the first script has in both the word it had in the second,
moved by what stands in front. -/
theorem wordIn_append_of_not_mem {first : Script} (second : Script) {item : Item}
    (h : ∀ name, item.target? = some name → name ∉ labelsOf first) :
    item.wordIn (first ++ second) = item.moved (extent first) (item.wordIn second) := by
  cases item with
  | word value => rfl
  | reference name =>
    simp only [Item.wordIn, Item.moved]
    rw [offsetOf_append_of_not_mem second (h name rfl)]
    omega

/-- What an item of a script refers to is referred to in the script. -/
theorem mem_referencesOf_of_target? {script : Script} {item : Item} {name : List Char}
    (hmem : item ∈ script.flatMap itemsOf) (htarget : item.target? = some name) :
    name ∈ referencesOf script := by
  rw [referencesOf_eq]
  exact List.mem_filterMap.mpr ⟨item, hmem, htarget⟩

/-- Scripts whose references each stay within their script are laid out one behind the other, with
the references of the second moved. -/
theorem layout_append_of_apart {first second : Script}
    (hfirst : ∀ name ∈ referencesOf first, name ∈ labelsOf first)
    (hsecond : ∀ name ∈ referencesOf second, name ∉ labelsOf first) :
    layout (first ++ second) =
      layout first ++ relocated (extent first) (second.flatMap itemsOf) (layout second) := by
  have hfront : (first.flatMap itemsOf).map (Item.wordIn (first ++ second)) = layout first := by
    rw [layout_eq]
    apply List.map_congr_left
    intro item hmem
    apply wordIn_append_of_mem
    intro name htarget
    exact hfirst name (mem_referencesOf_of_target? hmem htarget)
  have hbehind : (second.flatMap itemsOf).map (Item.wordIn (first ++ second)) =
      relocated (extent first) (second.flatMap itemsOf) (layout second) := by
    rw [layout_eq, relocated, List.zipWith_map_right, List.zipWith_self]
    apply List.map_congr_left
    intro item hmem
    apply wordIn_append_of_not_mem
    intro name htarget
    exact hsecond name (mem_referencesOf_of_target? hmem htarget)
  rw [layout_eq, List.flatMap_append, List.map_append, hfront, hbehind]

/-! ## Scripts that share no label -/

/-- Sources one after the other give their scripts one after the other. -/
theorem scriptOf_append (first second : List Source) :
    scriptOf (first ++ second) = scriptOf first ++ scriptOf second :=
  List.flatMap_append

/-- Scripts one after the other refer to what both refer to. -/
theorem referencesOf_append (first second : Script) :
    referencesOf (first ++ second) = referencesOf first ++ referencesOf second :=
  List.flatMap_append

/-- Two sound scripts with no label in common are sound one after the other. -/
theorem Sound.append {first second : Script} (hfirst : Sound first) (hsecond : Sound second)
    (hapart : (labelsOf first).Disjoint (labelsOf second)) : Sound (first ++ second) where
  known scope text hmem := by
    rcases List.mem_append.mp hmem with hmem | hmem
    · exact hfirst.known scope text hmem
    · exact hsecond.known scope text hmem
  distinct := by
    rw [labelsOf_append]
    exact List.Nodup.append hfirst.distinct hsecond.distinct hapart
  writable scope opcode operands hmem := by
    rcases List.mem_append.mp hmem with hmem | hmem
    · exact hfirst.writable scope opcode operands hmem
    · exact hsecond.writable scope opcode operands hmem
  defined name hname := by
    rw [referencesOf_append] at hname
    rw [labelsOf_append]
    rcases List.mem_append.mp hname with hname | hname
    · exact List.mem_append_left _ (hfirst.defined name hname)
    · exact List.mem_append_right _ (hsecond.defined name hname)

/-- Two readable scripts are readable one after the other. -/
theorem Readable.append {first second : Script} (hfirst : Readable first)
    (hsecond : Readable second) : Readable (first ++ second) := by
  intro entry hmem
  rcases List.mem_append.mp hmem with hmem | hmem
  · exact hfirst entry hmem
  · exact hsecond entry hmem

/-! ## Sources -/

/-- What the first pass lays out for sources that can be assembled. -/
theorem items_addSources {sources : List Source}
    (h : Sound (scriptOf sources) ∧ Readable (scriptOf sources)) :
    (Draft.empty.addSources sources).after.items.toList = (scriptOf sources).flatMap itemsOf := by
  have hlays := holds_empty.lays_sources sources
  rw [(sound_iff.mp h).1] at hlays
  obtain ⟨d, hreached, hd⟩ := hlays
  rw [(Reply.reached_eq_ok.mp hreached).2]
  exact hd.items_eq

/-- The layout has as many words as the script takes. -/
theorem length_layout {sources : List Source} :
    (layout (scriptOf sources)).length = extent (scriptOf sources) := by
  rw [layout_eq, List.length_map, List.length_flatMap, extent]
  congr 1
  apply List.map_congr_left
  intro entry hmem
  exact length_itemsOf entry (isWritten_of_mem_scriptOf sources entry hmem)

/-- Two lists of sources that can each be assembled and set no label in common can be assembled
together.  The words are those of the first and then those of the second, of which the ones that
stand for references, and no others, grow by the number of words of the first. -/
theorem assemble_append {first second : List Source} {words words' : List Int}
    (hfirst : (assemble first).result = .ok words)
    (hsecond : (assemble second).result = .ok words')
    (hapart : (labelsOf (scriptOf first)).Disjoint (labelsOf (scriptOf second))) :
    (Draft.empty.addSources second).after.items.size = words'.length ∧
      (assemble (first ++ second)).result = .ok (words ++
        relocated words.length (Draft.empty.addSources second).after.items.toList words') := by
  obtain ⟨⟨hsound, hreadable⟩, rfl⟩ := result_eq_ok_iff.mp hfirst
  obtain ⟨⟨hsound', hreadable'⟩, rfl⟩ := result_eq_ok_iff.mp hsecond
  have hitems := items_addSources ⟨hsound', hreadable'⟩
  refine ⟨?_, ?_⟩
  · rw [← Array.length_toList, hitems, layout_eq, List.length_map]
  · rw [result_eq_ok_iff, scriptOf_append, hitems, length_layout]
    refine ⟨⟨hsound.append hsound' hapart, hreadable.append hreadable'⟩, (layout_append_of_apart hsound.defined ?_).symm⟩
    intro name hname hmem
    exact hapart hmem (hsound'.defined name hname)

/-- Behind four words the references to what is behind and in front move up, and the number that
equals one of them does not. -/
theorem assemble_append_jumps :
    let first : List Source := [⟨none, "a", "jt #1 #&end end: hlt"⟩]
    let second : List Source := [⟨some "a", "b", ".data &last 5 back: jf #0 #&back last: hlt"⟩]
    (assemble first).result = .ok [1105, 1, 3, 99] ∧
      (assemble second).result = .ok [5, 5, 1106, 0, 2, 99] ∧
      (assemble (first ++ second)).result = .ok [1105, 1, 3, 99, 9, 5, 1106, 0, 6, 99] := by
  intro first second
  have hfirst : (assemble first).result = .ok [1105, 1, 3, 99] := by decide +kernel +zetaReduce
  have hsecond : (assemble second).result = .ok [5, 5, 1106, 0, 2, 99] := by decide +kernel +zetaReduce
  have hapart : (labelsOf (scriptOf first)).Disjoint (labelsOf (scriptOf second)) := by
    have hlabels : labelsOf (scriptOf first) = ["a::end".toList] := by decide +kernel +zetaReduce
    have hlabels' : labelsOf (scriptOf second) = ["a.b::back".toList, "a.b::last".toList] := by decide +kernel +zetaReduce
    rw [hlabels, hlabels', List.disjoint_left]
    decide
  obtain ⟨-, hwords⟩ := assemble_append hfirst hsecond hapart
  have hitems : (Draft.empty.addSources second).after.items.toList =
      [.reference "a.b::last".toList, .word 5, .word 1106, .word 0,
        .reference "a.b::back".toList, .word 99] := by
    decide +kernel +zetaReduce
  rw [hitems] at hwords
  exact ⟨hfirst, hsecond, hwords⟩

end IntegerMachine.Assembly
