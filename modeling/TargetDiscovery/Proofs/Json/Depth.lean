import TargetDiscovery.Proofs.Json.Grammar

/-!
# Documents that are too deep

A text of the grammar whose value is deeper than there is room is read up to the first value that
has no room, and there the reading ends. So the plain reader keeps to the laws of readers, with the
grammar as its format.
-/

set_option autoImplicit false

namespace TargetDiscovery.Json

/-- The reading of a part ends for want of room. -/
def Part.IsTooDeep (strict : Bool) (size room : Nat) (seen : Option (List Bytes)) (s : Bytes) :
    Part → Prop
  | value _ => readValue strict size room s = .error .tooDeep
  | items _ => readItems strict size room s = .error .tooDeep
  | members _ => readMembers strict size room seen s = .error .tooDeep

section

variable {strict : Bool} {size room : Nat} {s t u v w x rest name : Bytes} {j : Json}
  {js : List Json} {ms : List (Bytes × Json)} {seen : Option (List Bytes)}

theorem readValue_noRoom : readValue strict size 0 s = .error .tooDeep := by
  cases size with
  | zero => rfl
  | succ size =>
    rw [readValue]
    exact Nat.succ_ne_zero size

theorem readValue_array_tooDeep (hs : skip .blanks s = .ok (byte '[' :: t))
    (ht : skip .blanks t = .ok u) (hu : u.head? ≠ some (byte ']'))
    (hjs : ∀ inner, room = inner + 1 → readItems strict size inner u = .error .tooDeep) :
    readValue strict (size + 1) room s = .error .tooDeep := by
  cases room with
  | zero => exact readValue_noRoom
  | succ room => simp +decide only [readValue, hs, ht, hu, hjs room rfl, if_false, if_true]

theorem readValue_object_tooDeep (hs : skip .blanks s = .ok (byte '\x7b' :: t))
    (ht : skip .blanks t = .ok u) (hu : u.head? ≠ some (byte '\x7d'))
    (hms : ∀ inner, room = inner + 1 →
      readMembers strict size inner (if strict then some [] else none) u = .error .tooDeep) :
    readValue strict (size + 1) room s = .error .tooDeep := by
  cases room with
  | zero => exact readValue_noRoom
  | succ room => simp +decide only [readValue, hs, ht, hu, hms room rfl, if_false, if_true]

theorem readItems_tooDeep (hs : readValue strict size room s = .error .tooDeep) :
    readItems strict (size + 1) room s = .error .tooDeep := by
  simp only [readItems, hs]

theorem readItems_cons_tooDeep (hs : readValue strict size room s = .ok (j, t))
    (ht : skip .blanks t = .ok (byte ',' :: u))
    (hu : readItems strict size room u = .error .tooDeep) :
    readItems strict (size + 1) room s = .error .tooDeep := by
  simp +decide only [readItems, hs, ht, hu, if_false, if_true]

theorem readMembers_tooDeep (hs : skip .blanks s = .ok (byte '"' :: t)) (ht : Quoted t name u)
    (hu : skip .blanks u = .ok (byte ':' :: v)) (hnew : isNew name seen = true)
    (hv : readValue strict size room v = .error .tooDeep) :
    readMembers strict (size + 1) room seen s = .error .tooDeep := by
  have hname := readString_of_quoted ht (Nat.le_succ _)
  simp +decide only [readMembers, hs, hname, hu, hnew, hv, Bool.not_true, if_false]

theorem readMembers_cons_tooDeep (hs : skip .blanks s = .ok (byte '"' :: t))
    (ht : Quoted t name u) (hu : skip .blanks u = .ok (byte ':' :: v))
    (hnew : isNew name seen = true) (hv : readValue strict size room v = .ok (j, w))
    (hw : skip .blanks w = .ok (byte ',' :: x))
    (hx : readMembers strict size room (seen.map (name :: ·)) x = .error .tooDeep) :
    readMembers strict (size + 1) room seen s = .error .tooDeep := by
  have hname := readString_of_quoted ht (Nat.le_succ _)
  simp +decide only [readMembers, hs, hname, hu, hnew, hv, hw, hx, Bool.not_true, if_false,
    if_true]

theorem isTooDeep_of_leaf (h : j.depth = 1) (hroom : room < j.depth) :
    Part.IsTooDeep strict size room seen s (.value j) := by
  obtain rfl : room = 0 := by omega
  exact readValue_noRoom

end

/-- What follows the grammar and has too little room is not read to its end, unless for a name that
comes twice: all that stands in front of the first value without room is read. -/
theorem Reads.isTooDeep {strict : Bool} {s rest : Bytes} {p : Part} (h : Reads s p rest)
    {size room : Nat} {seen : Option (List Bytes)} (hsize : 2 * s.length ≤ size + 2 * rest.length)
    (hroom : room < p.depth) (hseen : seen.isSome = strict)
    (hdistinct : strict = true → p.distinct = true) (hfresh : p.Fresh seen) :
    p.IsTooDeep strict size room seen s := by
  induction h generalizing size room seen with
  | word hs hw ht =>
    cases hw with
    | _ => exact isTooDeep_of_leaf rfl hroom
  | number | string | emptyArray | emptyObject => exact isTooDeep_of_leaf rfl hroom
  | array hs ht hu ih =>
    have hlen := hu.length
    have hlt := length_opened hs ht
    obtain ⟨size, rfl⟩ : ∃ k, size = k + 1 := ⟨size - 1, by omega⟩
    refine readValue_array_tooDeep hs ht hu.items_head ?_
    rintro inner rfl
    exact ih (by omega) (Nat.lt_of_succ_lt_succ hroom) hseen hdistinct trivial
  | object hs ht hu ih =>
    have hlen := hu.length
    have hlt := length_opened hs ht
    obtain ⟨size, rfl⟩ : ∃ k, size = k + 1 := ⟨size - 1, by omega⟩
    refine readValue_object_tooDeep hs ht hu.members_head ?_
    rintro inner rfl
    exact ih (by omega) (Nat.lt_of_succ_lt_succ hroom) (isSome_unseen strict) hdistinct
      (Part.fresh_unseen strict _)
  | @lastItem s t rest j hs ht ih =>
    have hlen := hs.length
    have hlt := length_skip_cons ht
    obtain ⟨size, rfl⟩ : ∃ k, size = k + 1 := ⟨size - 1, by omega⟩
    change room < max j.depth 0 at hroom
    have hroom' : room < j.depth := by omega
    refine readItems_tooDeep (ih (by omega) hroom' hseen ?_ trivial)
    exact fun h => (Bool.and_eq_true_iff.mp (hdistinct h)).1
  | @item s t u rest j js hs ht hu ih ih' =>
    have hlen := hs.length
    have hlen' := hu.length
    have hlt := length_skip_cons ht
    obtain ⟨size, rfl⟩ : ∃ k, size = k + 1 := ⟨size - 1, by omega⟩
    change room < max j.depth (itemsDepth js) at hroom
    have hfirst : strict = true → j.distinctNames = true := fun h =>
      (Bool.and_eq_true_iff.mp (hdistinct h)).1
    rcases Nat.lt_or_ge room j.depth with hdeep | hfits
    · exact readItems_tooDeep (ih (by omega) hdeep hseen hfirst trivial)
    · have hread : readValue strict size room s = .ok (j, t) :=
        hs.complete (by omega) hfits hseen hfirst trivial
      have hroom' : room < itemsDepth js := by omega
      refine readItems_cons_tooDeep hread ht (ih' (by omega) hroom' hseen ?_ trivial)
      exact fun h => (Bool.and_eq_true_iff.mp (hdistinct h)).2
  | @lastMember s t u v w rest name j hs ht hu hv hw ih =>
    have hlen := hv.length
    have hnamed := length_named hs ht hu
    have hlt := length_skip_cons hw
    obtain ⟨size, rfl⟩ : ∃ k, size = k + 1 := ⟨size - 1, by omega⟩
    change room < max j.depth 0 at hroom
    have hroom' : room < j.depth := by omega
    refine readMembers_tooDeep hs ht hu hfresh.isNew_name
      (ih (by omega) hroom' hseen (fun h => ?_) trivial)
    exact (distinctMembers_cons.mp (hdistinct h)).2.1
  | @member s t u v w x rest name j ms hs ht hu hv hw hx ih ih' =>
    have hlen := hv.length
    have hlen' := hx.length
    have hnamed := length_named hs ht hu
    have hlt := length_skip_cons hw
    obtain ⟨size, rfl⟩ : ∃ k, size = k + 1 := ⟨size - 1, by omega⟩
    change room < max j.depth (membersDepth ms) at hroom
    have hfirst : strict = true → j.distinctNames = true := fun h =>
      (distinctMembers_cons.mp (hdistinct h)).2.1
    rcases Nat.lt_or_ge room j.depth with hdeep | hfits
    · exact readMembers_tooDeep hs ht hu hfresh.isNew_name
        (ih (by omega) hdeep hseen hfirst trivial)
    · have hread : readValue strict size room v = .ok (j, w) :=
        hv.complete (by omega) hfits hseen hfirst trivial
      have hroom' : room < membersDepth ms := by omega
      refine readMembers_cons_tooDeep hs ht hu hfresh.isNew_name hread hw
        (ih' (by omega) hroom' (by rw [Option.isSome_map, hseen])
          (fun h => (distinctMembers_cons.mp (hdistinct h)).2.2) (hfresh.later fun h => ?_))
      exact (distinctMembers_cons.mp (hdistinct (hseen.symm.trans h))).1

/-! ## The plain reader -/

theorem readText_tooDeep {strict : Bool} {text : Bytes} {j : Json} (h : IsTextOf text j)
    (hdepth : maxDepth < j.depth) (hdistinct : strict = true → j.distinctNames = true) :
    readText strict text = .error .tooDeep := by
  obtain ⟨rest, hreads, -⟩ := h
  have hread : readValue strict (2 * text.length + 2) maxDepth text = .error .tooDeep :=
    hreads.isTooDeep (by omega) hdepth (isSome_unseen strict) hdistinct trivial
  simp only [readText, hread]

/-- The plain reader keeps to the laws of readers. -/
theorem follows_plain : plain.Follows IsTextOf where
  read_eq_ok strict text document := by
    show (readText strict text).mapError Unread.failure = .ok document ↔ _
    rw [← readText_eq_ok]
    cases readText strict text with
    | ok other =>
      show (Except.ok other : Except Failure Json) = .ok document ↔ _
      rw [Except.ok.injEq, Except.ok.injEq]
    | error x =>
      show (Except.error x.failure : Except Failure Json) = .ok document ↔ _
      simp only [reduceCtorEq]
  tooDeep strict text document h hdepth hdistinct := by
    show (readText strict text).mapError Unread.failure = _
    rw [readText_tooDeep h hdepth hdistinct]
    rfl

end TargetDiscovery.Json
