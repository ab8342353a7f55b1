import ApiSentinel.Contract

/-!
# Respelled header names

Two documents that differ in the letter case of the names of header parameters.  Following
pointers and references in the one and in the other leads to values that differ so, or
fails in both.
-/

namespace ApiSentinel

mutual

/-- Values that differ in the letter case of the names of header parameters. -/
inductive Respelled (lower : String → String) : Json → Json → Prop
  | same {value} : Respelled lower value value
  | arr {items others} (all : RespelledItems lower items others) :
      Respelled lower (.arr items) (.arr others)
  | obj {members others}
      (all : RespelledMembers lower (members.lookup "in" = some (.str "header")) members others) :
      Respelled lower (.obj members) (.obj others)

inductive RespelledItems (lower : String → String) : List Json → List Json → Prop
  | nil : RespelledItems lower [] []
  | cons {item other items others} (first : Respelled lower item other)
      (rest : RespelledItems lower items others) :
      RespelledItems lower (item :: items) (other :: others)

/-- The members of two objects, of which a name may differ if they define a header. -/
inductive RespelledMembers (lower : String → String) :
    Prop → List (String × Json) → List (String × Json) → Prop
  | nil {header} : RespelledMembers lower header [] []
  | cons {header key value other members others} (first : Respelled lower value other)
      (rest : RespelledMembers lower header members others) :
      RespelledMembers lower header ((key, value) :: members) ((key, other) :: others)
  | name {header : Prop} {text other members others} (defines : header)
      (same : lower text = lower other) (rest : RespelledMembers lower header members others) :
      RespelledMembers lower header (("name", .str text) :: members)
        (("name", .str other) :: others)

end

/-- Values that stand at the same place of two documents, or a default of both. -/
inductive SamePlace (document twin : Json) : Json → Json → Prop
  | whole : SamePlace document twin document twin
  | default {value} (bare : value = .null ∨ value = .obj [] ∨ value = .arr []) :
      SamePlace document twin value value
  | member {members others key child other}
      (objects : SamePlace document twin (.obj members) (.obj others))
      (together : ((key, child), (key, other)) ∈ members.zip others) :
      SamePlace document twin child other
  | item {items others child other}
      (lists : SamePlace document twin (.arr items) (.arr others))
      (together : (child, other) ∈ items.zip others) : SamePlace document twin child other

/-- A value of one document and its respelling in another. -/
structure AlikePlaces (lower : String → String) (document twin value other : Json) : Prop where
  respelled : Respelled lower value other
  stands : SamePlace document twin value other

/-- Two spellings of a name. -/
inductive Spelt (lower : String → String) : Json → Json → Prop
  | mk {text other} (same : lower text = lower other) : Spelt lower (.str text) (.str other)

section Values

variable {lower : String → String} {header : Prop} {value other document twin : Json}
  {key : String} {members others : List (String × Json)} {items : List Json}

theorem respelledItems_refl (items : List Json) : RespelledItems lower items items := by
  induction items with
  | nil => exact .nil
  | cons item items ih => exact .cons .same ih

theorem respelledMembers_refl (members : List (String × Json)) :
    RespelledMembers lower header members members := by
  induction members with
  | nil => exact .nil
  | cons entry members ih => exact .cons .same ih

theorem Respelled.members_of_obj (respelled : Respelled lower (.obj members) other) :
    ∃ others, other = .obj others ∧
      RespelledMembers lower (members.lookup "in" = some (.str "header")) members others := by
  cases respelled with
  | same => exact ⟨members, rfl, respelledMembers_refl members⟩
  | obj all => exact ⟨_, rfl, all⟩

theorem Respelled.items_of_arr (respelled : Respelled lower (.arr items) other) :
    ∃ others, other = .arr others ∧ RespelledItems lower items others := by
  cases respelled with
  | same => exact ⟨items, rfl, respelledItems_refl items⟩
  | arr all => exact ⟨_, rfl, all⟩

theorem RespelledItems.forall₂ {others : List Json}
    (respelled : RespelledItems lower items others) :
    List.Forall₂ (Respelled lower) items others := by
  induction items generalizing others with
  | nil =>
      cases respelled
      exact .nil
  | cons item items ih =>
      cases respelled with
      | cons first rest => exact .cons first (ih rest)

/-- Members under one key, whose values are respelled or two spellings of a name. -/
def RespelledEntries (lower : String → String) (entry twin : String × Json) : Prop :=
  entry.1 = twin.1 ∧
    (Respelled lower entry.2 twin.2 ∨ entry.1 = "name" ∧ Spelt lower entry.2 twin.2)

theorem RespelledMembers.forall₂ (respelled : RespelledMembers lower header members others) :
    List.Forall₂ (RespelledEntries lower) members others := by
  induction members generalizing others with
  | nil =>
      cases respelled
      exact .nil
  | cons member members ih =>
      cases respelled with
      | cons first rest => exact .cons ⟨rfl, .inl first⟩ (ih rest)
      | name _ same rest => exact .cons ⟨rfl, .inr ⟨rfl, .mk same⟩⟩ (ih rest)

/-- Items of corresponding lists are respelled at the same place. -/
theorem alike_items {others : List Json}
    (alike : AlikePlaces lower document twin (.arr items) (.arr others)) :
    List.Forall₂ (AlikePlaces lower document twin) items others := by
  obtain ⟨_, same, all⟩ := alike.respelled.items_of_arr
  cases same
  exact List.forall₂_iff_zip.mpr ⟨all.forall₂.length_eq, fun together =>
    ⟨List.forall₂_zip all.forall₂ together, .item alike.stands together⟩⟩

/-- Members under one key at the same place of two documents. -/
def AlikeEntries (lower : String → String) (document twin : Json) (entry another : String × Json) :
    Prop :=
  entry.1 = another.1 ∧
    (AlikePlaces lower document twin entry.2 another.2 ∨
      entry.1 = "name" ∧ Spelt lower entry.2 another.2)

theorem alike_entries (alike : AlikePlaces lower document twin (.obj members) (.obj others)) :
    List.Forall₂ (AlikeEntries lower document twin) members others := by
  obtain ⟨_, same, all⟩ := alike.respelled.members_of_obj
  cases same
  refine List.forall₂_iff_zip.mpr ⟨all.forall₂.length_eq, ?_⟩
  rintro ⟨key, child⟩ ⟨_, other⟩ together
  obtain ⟨rfl, values⟩ := List.forall₂_zip all.forall₂ together
  exact ⟨rfl, values.imp_left fun same => ⟨same, .member alike.stands together⟩⟩

/-- Two results that are related, or none. -/
inductive AlikeOptions {First Second : Type} (related : First → Second → Prop) :
    Option First → Option Second → Prop
  | none : AlikeOptions related none none
  | some {one two} (same : related one two) : AlikeOptions related (some one) (some two)

section Options

variable {First Second : Type} {related : First → Second → Prop} {one : Option First}
  {two : Option Second}

theorem AlikeOptions.cases_eq (alike : AlikeOptions related one two) :
    one = .none ∧ two = .none ∨
      ∃ first second, one = .some first ∧ two = .some second ∧ related first second := by
  cases alike with
  | none => exact .inl ⟨rfl, rfl⟩
  | some same => exact .inr ⟨_, _, rfl, rfl, same⟩

theorem alikeOptions_getElem? {firsts : List First} {seconds : List Second}
    (both : List.Forall₂ related firsts seconds) (position : Nat) :
    AlikeOptions related firsts[position]? seconds[position]? := by
  induction both generalizing position with
  | nil => exact .none
  | cons same _ ih =>
      cases position with
      | zero => exact .some same
      | succ position => exact ih position

end Options

theorem alike_getD {one two : Option Json}
    (alike : AlikeOptions (AlikePlaces lower document twin) one two)
    {default : Json} (bare : default = .null ∨ default = .obj [] ∨ default = .arr []) :
    AlikePlaces lower document twin (one.getD default) (two.getD default) := by
  cases alike with
  | none => exact ⟨.same, .default bare⟩
  | some same => exact same

/-- A value and its respelling, or a name and its other spelling. -/
def Near (lower : String → String) (document twin value other : Json) : Prop :=
  AlikePlaces lower document twin value other ∨ Spelt lower value other

/-- What stands at the same place of respelled documents is respelled there. -/
theorem SamePlace.near (stands : SamePlace document twin value other)
    (documents : Respelled lower document twin) : Near lower document twin value other := by
  induction stands with
  | whole => exact .inl ⟨documents, .whole⟩
  | default bare => exact .inl ⟨.same, .default bare⟩
  | member _ together ih =>
      rcases ih with alike | spelt
      · exact (List.forall₂_zip (alike_entries alike) together).2.imp_right And.right
      · cases spelt
  | item _ together ih =>
      rcases ih with alike | spelt
      · exact .inl (List.forall₂_zip (alike_items alike) together)
      · cases spelt

/-- A document corresponds to itself place by place. -/
theorem SamePlace.eq (stands : SamePlace document document value other) : value = other := by
  induction stands with
  | whole | default => rfl
  | member _ together ih =>
      cases ih
      exact (Prod.mk.inj (List.forall₂_zip (List.forall₂_same.mpr fun _ _ => rfl) together)).2
  | item _ together ih =>
      cases ih
      exact List.forall₂_zip (List.forall₂_same.mpr fun _ _ => rfl) together

/-- What two respelled objects have under a key, at the same place. -/
inductive RespelledLookup (lower : String → String) (header : Prop)
    (members others : List (String × Json)) (key : String) : Option Json → Option Json → Prop
  | none : RespelledLookup lower header members others key none none
  | some {one two} (same : Respelled lower one two)
      (together : ((key, one), (key, two)) ∈ members.zip others) :
      RespelledLookup lower header members others key (some one) (some two)
  | name {one two} (named : key = "name") (defines : header) (same : Spelt lower one two) :
      RespelledLookup lower header members others key (some one) (some two)

theorem RespelledLookup.cons {one two : Option Json} (first second : String × Json)
    (found : RespelledLookup lower header members others key one two) :
    RespelledLookup lower header (first :: members) (second :: others) key one two := by
  cases found with
  | none => exact .none
  | some same together => exact .some same (List.mem_cons_of_mem _ together)
  | name named defines same => exact .name named defines same

theorem RespelledMembers.lookup (respelled : RespelledMembers lower header members others)
    (key : String) :
    RespelledLookup lower header members others key (members.lookup key) (others.lookup key) := by
  induction members generalizing others with
  | nil =>
      cases respelled
      exact .none
  | cons member members ih =>
      cases respelled with
      | @cons _ known _ _ _ _ first rest =>
          by_cases found : key = known
          · subst known
            simp only [List.lookup_cons_self]
            exact .some first List.mem_cons_self
          · simp only [List.lookup_cons, beq_false_of_ne found]
            exact (ih rest).cons _ _
      | name defines same rest =>
          by_cases found : key = "name"
          · subst key
            simp only [List.lookup_cons_self]
            exact .name rfl defines (.mk same)
          · simp only [List.lookup_cons, beq_false_of_ne found]
            exact (ih rest).cons _ _

theorem RespelledLookup.near {one two : Option Json}
    (found : RespelledLookup lower header members others key one two)
    (objects : SamePlace document twin (.obj members) (.obj others)) :
    AlikeOptions (Near lower document twin) one two := by
  cases found with
  | none => exact .none
  | some same together => exact .some (.inl ⟨same, .member objects together⟩)
  | name _ _ same => exact .some (.inr same)

theorem RespelledLookup.options {one two : Option Json}
    (found : RespelledLookup lower header members others key one two)
    (objects : SamePlace document twin (.obj members) (.obj others)) (apart : key ≠ "name") :
    AlikeOptions (AlikePlaces lower document twin) one two := by
  cases found with
  | none => exact .none
  | some same together => exact .some ⟨same, .member objects together⟩
  | name named => exact absurd named apart

/-! ### Operations on respelled values -/

namespace Respelled

theorem truthy_eq (respelled : Respelled lower value other) : value.truthy = other.truthy := by
  cases respelled with
  | same => rfl
  | arr all => cases all <;> rfl
  | obj all => cases all <;> rfl

/-- A scalar is not respelled. -/
theorem eq_of_hashable (respelled : Respelled lower value other) (scalar : value.hashable = true) :
    other = value := by
  cases respelled with
  | same => rfl
  | arr | obj => cases scalar

theorem equals_str_eq (respelled : Respelled lower value other) (text : String) :
    (Json.str text).equals value = (Json.str text).equals other := by
  cases respelled <;> rfl

theorem equals_str (respelled : Respelled lower value other) (text : String) :
    value.equals (.str text) = other.equals (.str text) := by
  cases respelled <;> rfl

theorem contains_eq (respelled : Respelled lower value other) (key : String) :
    value.contains key = other.contains key := by
  cases respelled with
  | same => rfl
  | @arr items others all =>
      have same : items.any (Json.equals (.str key)) = others.any (Json.equals (.str key)) := by
        have both := all.forall₂
        induction both with
        | nil => rfl
        | cons first _ ih =>
            cases all with
            | cons _ rest => rw [List.any_cons, List.any_cons, first.equals_str_eq, ih rest]
      exact congrArg Except.ok same
  | @obj members others all =>
      have same : (members.lookup key).isSome = (others.lookup key).isSome := by
        have both := all.lookup key
        generalize members.lookup key = found at both ⊢
        generalize others.lookup key = twinFound at both ⊢
        cases both <;> rfl
      exact congrArg Except.ok same

end Respelled

namespace AlikePlaces

/-- Both have the key, or both lack it. -/
theorem getItem (alike : AlikePlaces lower document twin value other) (apart : key ≠ "name") :
    AlikeOutcomes (AlikePlaces lower document twin) (value.getItem key) (other.getItem key) := by
  obtain ⟨respelled, stands⟩ := alike
  cases value with
  | obj members =>
      obtain ⟨others, rfl, all⟩ := respelled.members_of_obj
      unfold Json.getItem
      dsimp only
      rcases ((all.lookup key).options stands apart).cases_eq with
        ⟨found, absent⟩ | ⟨_, _, found, given, same⟩
      · rw [found, absent]
        exact .error
      · rw [found, given]
        exact .ok same
  | arr items =>
      obtain ⟨others, rfl, _⟩ := respelled.items_of_arr
      exact .error
  | null | bool | int | float | nan | infinity | str =>
      cases respelled.eq_of_hashable rfl
      exact .error

theorem get (alike : AlikePlaces lower document twin value other) (apart : key ≠ "name")
    {default : Json} (bare : default = .null ∨ default = .obj [] ∨ default = .arr []) :
    AlikeOutcomes (AlikePlaces lower document twin) (value.get key default)
      (other.get key default) := by
  obtain ⟨respelled, stands⟩ := alike
  cases value with
  | obj members =>
      obtain ⟨others, rfl, all⟩ := respelled.members_of_obj
      exact .ok (alike_getD ((all.lookup key).options stands apart) bare)
  | arr items =>
      obtain ⟨others, rfl, _⟩ := respelled.items_of_arr
      exact .error
  | null | bool | int | float | nan | infinity | str =>
      cases respelled.eq_of_hashable rfl
      exact .error

end AlikePlaces

/-! ### Pointers -/

theorem near_descend (near : Near lower document twin value other) (token : List Char) :
    AlikeOutcomes (Near lower document twin) (descend value token) (descend other token) := by
  rcases near with alike | spelt
  · cases value with
    | obj members =>
        obtain ⟨others, rfl, all⟩ := alike.respelled.members_of_obj
        unfold descend Json.getItem
        dsimp only
        rcases ((all.lookup (String.ofList token)).near alike.stands).cases_eq with
          ⟨found, absent⟩ | ⟨_, _, found, given, near⟩
        · rw [found, absent]
          exact .error
        · rw [found, given]
          exact .ok near
    | arr items =>
        obtain ⟨others, rfl, _⟩ := alike.respelled.items_of_arr
        unfold descend
        dsimp only
        split
        · rcases (alikeOptions_getElem? (alike_items alike)
              (Nat.ofDigitChars 10 token 0)).cases_eq with
            ⟨found, absent⟩ | ⟨_, _, found, given, same⟩
          · rw [found, absent]
            exact .error
          · rw [found, given]
            exact .ok (.inl same)
        · exact .error
    | null | bool | int | float | nan | infinity | str =>
        cases alike.respelled.eq_of_hashable rfl
        exact .error
  · cases spelt
    exact .error

theorem near_walk (near : Near lower document twin value other) (tokens : List (List Char)) :
    AlikeOutcomes (Near lower document twin) (walk value tokens) (walk other tokens) := by
  induction tokens generalizing value other with
  | nil => exact .ok near
  | cons token tokens ih =>
      unfold walk
      exact (near_descend near (unescape token)).bind fun _ _ near => ih near

theorem near_pointer (documents : Respelled lower document twin) (path : String) :
    AlikeOutcomes (Near lower document twin) (pointer document path) (pointer twin path) := by
  have near : Near lower document twin document twin := .inl ⟨documents, .whole⟩
  unfold pointer
  split
  · exact .ok near
  · split
    · exact .error
    · exact near_walk near _

/-! ### References -/

/-- Respelling changes no reference. -/
theorem refs_eq (respelled : Respelled lower value other) : value.refs = other.refs := by
  refine @Respelled.rec lower (fun value other _ => value.refs = other.refs)
    (fun items others _ => refsOfItems items = refsOfItems others)
    (fun _ members others _ => refsOfMembers members = refsOfMembers others)
    rfl ?_ ?_ rfl ?_ rfl ?_ ?_ value other respelled
  · intro items others _ same
    unfold Json.refs
    exact same
  · intro members others _ same
    unfold Json.refs
    exact same
  · intro item other items others _ _ first rest
    unfold refsOfItems
    rw [first, rest]
  · intro header key value other members others respelled _ first rest
    unfold refsOfMembers
    have text : value.text? = other.text? := by cases respelled <;> rfl
    rw [first, rest, text]
  · intro header text other members others _ _ _ rest
    unfold refsOfMembers
    rw [rest]
    rfl

/-- What is no use as an object: an exception or a string. -/
def Unusable (outcome : Except Raised Json) : Prop :=
  ∀ value, outcome = .ok value → ∃ text, value = .str text

/-- Following references in two documents comes to respelled values, or to nothing of use
where a reference is to the name of a header. -/
def Followed (lower : String → String) (document twin : Json)
    (outcome other : Except Raised Json) : Prop :=
  AlikeOutcomes (AlikePlaces lower document twin) outcome other ∨ Unusable outcome ∧ Unusable other

namespace Contract

theorem unusable_derefFrom {document : Json} {fuel : Nat} {visited : List String}
    {text : String} : Unusable (derefFrom document fuel visited (.str text)) := by
  intro value followed
  cases fuel with
  | zero => cases followed
  | succ fuel =>
      rw [derefFrom] at followed
      obtain ⟨has, _, followed⟩ := except_bind_eq_ok.mp followed
      split at followed
      · cases followed
        exact ⟨text, rfl⟩
      · cases followed

theorem followed_derefFrom (documents : Respelled lower document twin) (fuel : Nat)
    (visited : List String) (near : Near lower document twin value other) :
    Followed lower document twin (derefFrom document fuel visited value)
      (derefFrom twin fuel visited other) := by
  induction fuel generalizing visited value other with
  | zero => exact .inl .error
  | succ fuel ih =>
      rcases near with alike | spelt
      · rw [derefFrom, derefFrom, alike.respelled.contains_eq "$ref"]
        cases other.contains "$ref" with
        | error raised => exact .inl .error
        | ok refers =>
            cases refers with
            | false => exact .inl (.ok alike)
            | true =>
                have both : AlikeOutcomes (AlikePlaces lower document twin) (value.getItem "$ref")
                    (other.getItem "$ref") := alike.getItem (by decide)
                change Followed lower document twin (value.getItem "$ref" >>= _)
                  (other.getItem "$ref" >>= _)
                generalize value.getItem "$ref" = found at both ⊢
                generalize other.getItem "$ref" = twinFound at both ⊢
                cases both with
                | error => exact .inl .error
                | @ok ref again same =>
                    cases ref with
                    | str ref =>
                        cases same.respelled.eq_of_hashable rfl
                        change Followed lower document twin (if ref ∈ visited then _ else _)
                          (if ref ∈ visited then _ else _)
                        split
                        · exact .inl .error
                        · have both := near_pointer documents (fragment ref)
                          generalize pointer document (fragment ref) = target at both ⊢
                          generalize pointer twin (fragment ref) = twinTarget at both ⊢
                          cases both with
                          | error => exact .inl .error
                          | ok near => exact ih _ near
                    | arr items =>
                        obtain ⟨_, rfl, _⟩ := same.respelled.items_of_arr
                        exact .inl .error
                    | obj members =>
                        obtain ⟨_, rfl, _⟩ := same.respelled.members_of_obj
                        exact .inl .error
                    | null | bool | int | float | nan | infinity =>
                        cases same.respelled.eq_of_hashable rfl
                        exact .inl .error
      · cases spelt
        exact .inr ⟨unusable_derefFrom, unusable_derefFrom⟩

/-- A value of the document of a contract and its respelling in the document of another. -/
abbrev AlikeIn (lower : String → String) (contract twin : Contract) : Json → Json → Prop :=
  AlikePlaces lower (.obj contract.document) (.obj twin.document)

theorem followed_deref {contract twin : Contract}
    (documents : Respelled lower (.obj contract.document) (.obj twin.document))
    (alike : AlikeIn lower contract twin value other) :
    Followed lower (.obj contract.document) (.obj twin.document) (contract.deref value)
      (twin.deref other) := by
  unfold deref
  dsimp only
  rw [← refs_eq documents]
  exact followed_derefFrom documents _ _ (.inl alike)

/-- References that lead to objects lead to respelled objects. -/
theorem alike_of_deref {contract twin : Contract}
    (documents : Respelled lower (.obj contract.document) (.obj twin.document))
    (alike : AlikeIn lower contract twin value other) {members others : List (String × Json)}
    (followed : contract.deref value = .ok (.obj members))
    (twinned : twin.deref other = .ok (.obj others)) :
    AlikeIn lower contract twin (.obj members) (.obj others) := by
  have both := followed_deref documents alike
  rw [followed, twinned] at both
  rcases both with alike | ⟨useless, _⟩
  · cases alike with
    | ok same => exact same
  · obtain ⟨text, impossible⟩ := useless _ rfl
    cases impossible

end Contract

end Values

end ApiSentinel
