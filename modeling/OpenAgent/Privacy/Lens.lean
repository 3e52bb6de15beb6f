import OpenAgent.Lib.Dict
import OpenAgent.Privacy.Fragments

/-!
# Reading and replacing a subtree

`get` and `replace` of the canonical JSON selectors. A path may go through a string that encodes JSON,
with the boundary spelled out or left out; replacing a subtree encodes every string on the way again,
with its keys sorted, so what is read afterwards is the same up to the order of keys. A subtree is
where the components of its path lead without the boundaries: two paths that differ in the spelling
alone lead to one place, and replacing at one of them is seen through the other.
-/

namespace OpenAgent.Privacy

open Lib List

/-! ### The selectors -/

/-- What `value[component]` raises. -/
def subscriptError : Json → PathComponent → StoreError
  | .obj _, .key name => .key name
  | .obj _, .index i => .key (toString i)
  | .arr _, .index _ => .lookup "list index out of range"
  | .str _, .index _ => .lookup "string index out of range"
  | .arr _, _ => .type "list indices must be integers or slices"
  | .str _, _ => .type "string indices must be integers"
  | _, _ => .type "object is not subscriptable"

/-- `value[component]` -/
def getItem (value : Json) (component : PathComponent) : Except StoreError Json :=
  match subscript value component with
  | some child => .ok child
  | none => .error (subscriptError value component)

def opened (loads : String → Option Json) : Json → Except StoreError Json
  | .str text => decodeFragmentJson loads (.str text)
  | value => .ok value

/-- `get` -/
def getPath (loads : String → Option Json) : Json → List PathComponent → Except StoreError Json
  | value, [] => .ok value
  | value, .decodeJson :: rest => do
    let inner ← decodeFragmentJson loads value
    getPath loads inner rest
  | value, component :: rest => do
    let inner ← opened loads value
    let child ← getItem inner component
    getPath loads child rest

/-- `root[component] = child` -/
def setItem : Json → PathComponent → Json → Json
  | .obj fields, .key name, child => .obj (Dict.assign name child fields)
  | .arr items, .index i, child => .arr (items.set i child)
  | root, _, _ => root

/-- `replace`; `depth` bounds the nesting of its calls, as the stack of the interpreter does. -/
def replacePath (loads : String → Option Json) (dumps : Json → String) (value : Json) :
    (depth : Nat) → Json → List PathComponent → Except StoreError Json
  | 0, _, _ => .error (.runtime "maximum recursion depth exceeded")
  | _ + 1, _, [] => .ok value
  | depth + 1, root, .decodeJson :: rest => do
    let inner ← decodeFragmentJson loads root
    let replaced ← replacePath loads dumps value depth inner rest
    return .str (dumps replaced)
  | depth + 1, .str text, component :: rest => do
    let inner ← decodeFragmentJson loads (.str text)
    let replaced ← replacePath loads dumps value depth inner (component :: rest)
    return .str (dumps replaced)
  | depth + 1, root, component :: rest => do
    let child ← getItem root component
    let replaced ← replacePath loads dumps value depth child rest
    return setItem root component replaced

/-! ### Values that cannot be told apart -/

def hollow : Json → Json
  | .arr _ => .arr []
  | .obj _ => .obj []
  | value => value

/-- Two values that look alike and have the same subscripts, up to `R`. -/
structure Alike (R : Json → Json → Prop) (a b : Json) : Prop where
  hollow_eq : hollow a = hollow b
  left : ∀ component x, subscript a component = some x → ∃ y, subscript b component = some y ∧ R x y
  right : ∀ component y, subscript b component = some y → ∃ x, subscript a component = some x ∧ R x y

/-- `a == b`: nothing that can be read in one of the values tells it from the other. -/
def Same (a b : Json) : Prop := ∃ R : Json → Json → Prop, (∀ a b, R a b → Alike R a b) ∧ R a b

namespace Same

theorem alike {a b : Json} (h : Same a b) : Alike Same a b := by
  obtain ⟨R, hR, hab⟩ := h
  refine ⟨(hR a b hab).hollow_eq, ?_, ?_⟩
  · intro component x hx
    obtain ⟨y, hy, hxy⟩ := (hR a b hab).left component x hx
    exact ⟨y, hy, R, hR, hxy⟩
  · intro component y hy
    obtain ⟨x, hx, hxy⟩ := (hR a b hab).right component y hy
    exact ⟨x, hx, R, hR, hxy⟩

theorem refl (a : Json) : Same a a := by
  refine ⟨Eq, ?_, rfl⟩
  rintro a _ rfl
  exact ⟨rfl, fun _ x hx => ⟨x, hx, rfl⟩, fun _ x hx => ⟨x, hx, rfl⟩⟩

theorem trans {a b c : Json} (h : Same a b) (h' : Same b c) : Same a c := by
  refine ⟨fun x z => ∃ y, Same x y ∧ Same y z, ?_, b, h, h'⟩
  rintro a c ⟨b, hab, hbc⟩
  refine ⟨hab.alike.hollow_eq.trans hbc.alike.hollow_eq, ?_, ?_⟩
  · intro component x hx
    obtain ⟨y, hy, hxy⟩ := hab.alike.left component x hx
    obtain ⟨z, hz, hyz⟩ := hbc.alike.left component y hy
    exact ⟨z, hz, y, hxy, hyz⟩
  · intro component z hz
    obtain ⟨y, hy, hyz⟩ := hbc.alike.right component z hz
    obtain ⟨x, hx, hxy⟩ := hab.alike.right component y hy
    exact ⟨x, hx, y, hxy, hyz⟩

theorem eq_str {text : String} {b : Json} (h : Same (.str text) b) : b = .str text := by
  have hshape := h.alike.hollow_eq
  cases b with
  | str text' => exact hshape.symm
  | _ => cases hshape

end Same

def Container : Json → Prop
  | .arr _ | .obj _ => True
  | _ => False

theorem Container.of_same {a b : Json} (h : Container a) (hsame : Same a b) : Container b := by
  have hshape := hsame.alike.hollow_eq
  cases a with
  | arr items =>
    cases b with
    | arr _ => trivial
    | _ => cases hshape
  | obj fields =>
    cases b with
    | obj _ => trivial
    | _ => cases hshape
  | _ => exact h.elim

variable {w root child inner inner' : Json}

theorem Container.setItem (h : Container root) (component : PathComponent) :
    Container (setItem root component child) := by
  cases root with
  | arr items => cases component <;> trivial
  | obj fields => cases component <;> trivial
  | _ => exact h.elim

/-! ### Subscripts -/

theorem field_obj (fields : List (String × Json)) (name : String) :
    (Json.obj fields).field name = Dict.find name fields := by
  rw [Json.field]
  induction fields with
  | nil => rfl
  | cons f rest ih =>
    obtain ⟨k, v⟩ := f
    rw [find?_cons, Dict.find]
    by_cases hk : k = name
    · simp [hk]
    · simpa [hk] using ih

theorem subscript_decodeJson (root : Json) : subscript root .decodeJson = none := by
  cases root <;> rfl

variable {component : PathComponent}

theorem subscript_setItem {old : Json} (hroot : Container root) (hold : subscript root component = some old) :
    subscript (setItem root component child) component = some child := by
  cases root with
  | obj fields =>
    cases component with
    | key name =>
      show (Json.obj (Dict.assign name child fields)).field name = some child
      rw [field_obj, Dict.find_assign, if_pos rfl]
    | _ => cases hold
  | arr items =>
    cases component with
    | index i =>
      show (items.set i child)[i]? = some child
      obtain ⟨hlt, -⟩ := List.getElem?_eq_some_iff.mp hold
      rw [getElem?_set_self hlt]
    | _ => cases hold
  | _ => exact hroot.elim

theorem subscript_setItem_ne {root child : Json} {component other : PathComponent}
    (hne : component ≠ other) : subscript (setItem root component child) other = subscript root other := by
  cases root with
  | obj fields =>
    cases component with
    | key name =>
      cases other with
      | key name' =>
        have hname : name' ≠ name := fun heq => hne (by rw [heq])
        show (Json.obj (Dict.assign name child fields)).field name' = (Json.obj fields).field name'
        rw [field_obj, field_obj, Dict.find_assign, if_neg hname]
      | _ => rfl
    | _ => rfl
  | arr items =>
    cases component with
    | index i =>
      cases other with
      | index j =>
        have hindex : i ≠ j := fun heq => hne (by rw [heq])
        show (items.set i child)[j]? = items[j]?
        rw [getElem?_set_ne hindex]
      | _ => rfl
    | _ => rfl
  | _ => rfl

variable {loads : String → Option Json} {dumps : Json → String}

theorem getItem_ok :
    getItem root component = .ok child ↔ subscript root component = some child := by
  unfold getItem
  cases subscript root component with
  | none => simp
  | some value => simp

theorem opened_container (h : Container root) : opened loads root = .ok root := by
  cases root with
  | arr _ => rfl
  | obj _ => rfl
  | _ => exact h.elim

theorem getPath_cons (hcomponent : component ≠ .decodeJson) (root : Json) (rest : List PathComponent)
    : getPath loads root (component :: rest) =
      (opened loads root >>= fun inner => getItem inner component >>= fun child => getPath loads child rest) := by
  cases component with
  | decodeJson => exact absurd rfl hcomponent
  | key name => rfl
  | index i => rfl

theorem getPath_container (hroot : Container root) (hchild : subscript root component = some child)
    (rest : List PathComponent) :
    getPath loads root (component :: rest) = getPath loads child rest := by
  have hcomponent : component ≠ .decodeJson := by
    rintro rfl
    simp [subscript_decodeJson] at hchild
  rw [getPath_cons hcomponent, opened_container hroot]
  show (getItem root component >>= fun child => getPath loads child rest) = _
  rw [getItem_ok.mpr hchild]
  rfl

theorem getPath_boundary {text : String} (rest : List PathComponent)
    (hinner : decodeFragmentJson loads (.str text) = .ok inner) :
    getPath loads (.str text) (.decodeJson :: rest) = getPath loads inner rest := by
  rw [getPath, hinner]
  rfl

theorem getPath_implicit {text : String} (rest : List PathComponent)
    (hinner : decodeFragmentJson loads (.str text) = .ok inner) (hcontainer : Container inner)
    (hcomponent : component ≠ .decodeJson) :
    getPath loads (.str text) (component :: rest) = getPath loads inner (component :: rest) := by
  rw [getPath_cons hcomponent, getPath_cons hcomponent, opened_container hcontainer, opened, hinner]

variable {path rest : List PathComponent}

theorem Same.getPath {a b : Json} (h : Same a b) (ha : getPath loads a path = .ok w)
    : ∃ w', Privacy.getPath loads b path = .ok w' ∧ Same w w' := by
  induction path generalizing a b with
  | nil =>
    cases ha
    exact ⟨b, rfl, h⟩
  | cons component rest ih =>
    by_cases hcontainer : Container a
    · by_cases hcomponent : component = .decodeJson
      · subst hcomponent
        cases a with
        | arr items => cases ha
        | obj fields => cases ha
        | _ => exact hcontainer.elim
      rw [getPath_cons hcomponent, opened_container hcontainer] at ha
      change (getItem a component >>= fun child => Privacy.getPath loads child rest) = _ at ha
      cases hitem : getItem a component with
      | error e =>
        rw [hitem] at ha
        cases ha
      | ok child =>
        rw [hitem] at ha
        obtain ⟨child', hchild', hsame⟩ := h.alike.left component child (getItem_ok.mp hitem)
        rw [getPath_container (hcontainer.of_same h) hchild']
        exact ih hsame ha
    · cases a with
      | str text =>
        rw [h.eq_str]
        exact ⟨w, ha, .refl w⟩
      | arr items => exact absurd trivial hcontainer
      | obj fields => exact absurd trivial hcontainer
      | _ => cases component <;> cases ha

/-! ### Where a path leads -/

/-- A path leads through lists and dictionaries, and through strings that encode JSON, with the
boundary or without it where the string encodes a container. -/
inductive Leads (loads : String → Option Json) : Json → List PathComponent → Json → Prop
  | here (v : Json) : Leads loads v [] v
  | item {root child w : Json} {component : PathComponent} {rest : List PathComponent}
      (hroot : Container root) (hchild : subscript root component = some child)
      (hrest : Leads loads child rest w) : Leads loads root (component :: rest) w
  | boundary {text : String} {inner w : Json} {rest : List PathComponent}
      (hinner : decodeFragmentJson loads (.str text) = .ok inner) (hrest : Leads loads inner rest w) :
      Leads loads (.str text) (.decodeJson :: rest) w
  | implicit {text : String} {inner child w : Json} {component : PathComponent} {rest : List PathComponent}
      (hinner : decodeFragmentJson loads (.str text) = .ok inner) (hroot : Container inner)
      (hchild : subscript inner component = some child) (hrest : Leads loads child rest w) :
      Leads loads (.str text) (component :: rest) w

theorem ne_decodeJson (h : subscript root component = some child) : component ≠ .decodeJson := by
  rintro rfl
  simp [subscript_decodeJson] at h

theorem Leads.getPath (h : Leads loads root path w) :
    getPath loads root path = .ok w := by
  induction h with
  | here v => rfl
  | item hroot hchild hrest ih =>
    rw [getPath_container hroot hchild]
    exact ih
  | boundary hinner hrest ih =>
    rw [getPath_boundary _ hinner]
    exact ih
  | implicit hinner hroot hchild hrest ih =>
    rw [getPath_implicit _ hinner hroot (ne_decodeJson hchild), getPath_container hroot hchild]
    exact ih

def TakesCharacter (loads : String → Option Json) (root : Json) (path : List PathComponent) : Prop :=
  ∃ front i back text text', path = front ++ .index i :: back ∧ Leads loads root front (.str text) ∧
    decodeFragmentJson loads (.str text) = .ok (.str text')

theorem TakesCharacter.cons {root child : Json} {component : PathComponent} {rest : List PathComponent}
    (hchild : ∀ front w, Leads loads child front w → Leads loads root (component :: front) w)
    (h : TakesCharacter loads child rest) : TakesCharacter loads root (component :: rest) := by
  obtain ⟨front, i, back, text, text', rfl, hfront, htext⟩ := h
  exact ⟨component :: front, i, back, text, text', rfl, hchild front _ hfront, htext⟩

/-- Whatever `get` reads is a part of the value, or a character. -/
theorem leads_or_takesCharacter (h : getPath loads root path = .ok w)
    : Leads loads root path w ∨ TakesCharacter loads root path := by
  induction path generalizing root with
  | nil =>
    obtain rfl := Except.ok.inj h
    exact .inl (.here root)
  | cons component rest ih =>
    by_cases hcomponent : component = .decodeJson
    · subst hcomponent
      cases root with
      | str text =>
        cases hinner : decodeFragmentJson loads (.str text) with
        | error e =>
          rw [Privacy.getPath, hinner] at h
          cases h
        | ok inner =>
          rw [getPath_boundary _ hinner] at h
          rcases ih h with hleads | hcharacter
          · exact .inl (.boundary hinner hleads)
          · exact .inr (hcharacter.cons fun front w hfront => .boundary hinner hfront)
      | _ => cases h
    rw [getPath_cons hcomponent] at h
    cases hopened : opened loads root with
    | error e =>
      rw [hopened] at h
      cases h
    | ok inner =>
      rw [hopened] at h
      change (getItem inner component >>= fun child => Privacy.getPath loads child rest) = _ at h
      cases hitem : getItem inner component with
      | error e =>
        rw [hitem] at h
        cases h
      | ok child =>
        rw [hitem] at h
        have hchild := getItem_ok.mp hitem
        have hstep : (∀ front w, Leads loads child front w → Leads loads root (component :: front) w) ∨
            TakesCharacter loads root (component :: rest) := by
          cases root with
          | str text =>
            cases inner with
            | str text' =>
              cases component with
              | index i => exact .inr ⟨[], i, rest, text, text', rfl, .here _, hopened⟩
              | _ => cases hchild
            | arr items => exact .inl fun front w => .implicit hopened trivial hchild
            | obj fields => exact .inl fun front w => .implicit hopened trivial hchild
            | _ => cases hchild
          | arr items =>
            cases hopened
            exact .inl fun front w => .item trivial hchild
          | obj fields =>
            cases hopened
            exact .inl fun front w => .item trivial hchild
          | _ =>
            cases hopened
            cases hchild
        rcases hstep with hfront | hcharacter
        · rcases ih h with hleads | hcharacter
          · exact .inl (hfront rest w hleads)
          · exact .inr (hcharacter.cons hfront)
        · exact .inr hcharacter

/-- `x` is a value that `replace` encodes again on its way. -/
inductive Encodes (loads : String → Option Json) (dumps : Json → String) (value : Json) :
    Json → List PathComponent → Json → Prop
  | boundary {text : String} {inner x : Json} {rest : List PathComponent} {depth : Nat}
      (hinner : decodeFragmentJson loads (.str text) = .ok inner)
      (hx : replacePath loads dumps value depth inner rest = .ok x) :
      Encodes loads dumps value (.str text) (.decodeJson :: rest) x
  | implicit {text : String} {inner x : Json} {component : PathComponent} {rest : List PathComponent}
      {depth : Nat} (hinner : decodeFragmentJson loads (.str text) = .ok inner)
      (hcomponent : component ≠ .decodeJson)
      (hx : replacePath loads dumps value depth inner (component :: rest) = .ok x) :
      Encodes loads dumps value (.str text) (component :: rest) x
  | behindBoundary {text : String} {inner x : Json} {rest : List PathComponent}
      (hinner : decodeFragmentJson loads (.str text) = .ok inner)
      (hbehind : Encodes loads dumps value inner rest x) :
      Encodes loads dumps value (.str text) (.decodeJson :: rest) x
  | behindImplicit {text : String} {inner x : Json} {component : PathComponent} {rest : List PathComponent}
      (hinner : decodeFragmentJson loads (.str text) = .ok inner) (hcomponent : component ≠ .decodeJson)
      (hbehind : Encodes loads dumps value inner (component :: rest) x) :
      Encodes loads dumps value (.str text) (component :: rest) x
  | behindItem {root child x : Json} {component : PathComponent} {rest : List PathComponent}
      (hroot : Container root) (hchild : subscript root component = some child)
      (hbehind : Encodes loads dumps value child rest x) :
      Encodes loads dumps value root (component :: rest) x

def Restored (loads : String → Option Json) (dumps : Json → String) (x : Json) : Prop :=
  ∃ y, decodeFragmentJson loads (.str (dumps x)) = .ok y ∧ Same x y

def bare (path : List PathComponent) : List PathComponent := path.filter fun c => c ≠ .decodeJson

theorem bare_boundary (rest : List PathComponent) : bare (.decodeJson :: rest) = bare rest := by
  simp [bare]

theorem bare_cons (h : component ≠ .decodeJson) (rest : List PathComponent) :
    bare (component :: rest) = component :: bare rest := by
  simp [bare, h]

def Apart (p q : List PathComponent) : Prop := ¬ bare p <+: bare q ∧ ¬ bare q <+: bare p

theorem Apart.right_ne_nil {p q : List PathComponent} (h : Apart p q) : q ≠ [] := by
  rintro rfl
  exact h.2 nil_prefix

theorem Apart.left_ne_nil {p q : List PathComponent} (h : Apart p q) : p ≠ [] := by
  rintro rfl
  exact h.1 nil_prefix

/-- What the replacement at a place that a path leads to does, whatever is read next. -/
structure Replaced (loads : String → Option Json) (value root : Json) (path : List PathComponent)
    (root' : Json) : Prop where
  container : Container root → path ≠ [] → Container root'
  read : ∃ w, getPath loads root' path = .ok w ∧ Same value w
  frame : ∀ q u, Leads loads root q u → Apart path q → ∃ u', getPath loads root' q = .ok u' ∧ Same u u'

variable {value : Json}

theorem Replaced.item {root child child' : Json} {component : PathComponent} {rest : List PathComponent}
    (hroot : Container root) (hchild : subscript root component = some child)
    (h : Replaced loads value child rest child') :
    Replaced loads value root (component :: rest) (setItem root component child') where
  container _ _ := hroot.setItem component
  read := by
    obtain ⟨w, hw, hsame⟩ := h.read
    rw [getPath_container (hroot.setItem component) (subscript_setItem hroot hchild)]
    exact ⟨w, hw, hsame⟩
  frame q u hq hapart := by
    cases hq with
    | here => exact absurd rfl hapart.right_ne_nil
    | boundary | implicit => exact hroot.elim
    | @item _ other _ component' rest' _ hother hrest' =>
      by_cases heq : component = component'
      · subst heq
        cases hchild.symm.trans hother
        have hbehind : Apart rest rest' := by
          rw [Apart, bare_cons (ne_decodeJson hchild), bare_cons (ne_decodeJson hchild)] at hapart
          simpa [Apart, cons_prefix_cons] using hapart
        rw [getPath_container (hroot.setItem component) (subscript_setItem hroot hchild)]
        exact h.frame rest' u hrest' hbehind
      · have hsame := @subscript_setItem_ne root child' component component' heq
        rw [← hsame] at hother
        rw [getPath_container (hroot.setItem component) hother]
        exact ⟨u, hrest'.getPath, .refl u⟩

theorem Replaced.text {text : String} (hinner : decodeFragmentJson loads (.str text) = .ok inner)
    (hpath : path = .decodeJson :: rest ∨ path = rest ∧ Container inner ∧ ∃ component behind,
      rest = component :: behind ∧ component ≠ .decodeJson) (h : Replaced loads value inner rest inner')
    (hrestored : Restored loads dumps inner') :
    Replaced loads value (.str text) path (.str (dumps inner')) := by
  obtain ⟨y, hy, hsame⟩ := hrestored
  have hbare : bare path = bare rest := by
    rcases hpath with rfl | ⟨rfl, -⟩
    · exact bare_boundary rest
    · rfl
  have hbehind : ∀ q, Apart path q → Apart rest q := by
    intro q hq
    rw [Apart, hbare] at hq
    exact hq
  refine ⟨fun htext => htext.elim, ?_, ?_⟩
  · obtain ⟨w, hw, hvalue⟩ := h.read
    obtain ⟨w', hw', hsame'⟩ := hsame.getPath hw
    refine ⟨w', ?_, hvalue.trans hsame'⟩
    rcases hpath with rfl | ⟨rfl, hcontainer, component, behind, rfl, hcomponent⟩
    · rw [getPath_boundary _ hy]
      exact hw'
    · have hinner' : Container inner' := h.container hcontainer (by simp)
      rw [getPath_implicit _ hy (hinner'.of_same hsame) hcomponent]
      exact hw'
  · intro q u hq hapart
    have hrest := hbehind q hapart
    cases hq with
    | here => exact absurd rfl hapart.right_ne_nil
    | item hroot => exact hroot.elim
    | boundary hinner' hrest' =>
      cases hinner.symm.trans hinner'
      have hopen := hrest
      rw [Apart, bare_boundary] at hopen
      obtain ⟨u', hu', hsame'⟩ := h.frame _ u hrest' hopen
      obtain ⟨u'', hu'', hsame''⟩ := hsame.getPath hu'
      rw [getPath_boundary _ hy]
      exact ⟨u'', hu'', hsame'.trans hsame''⟩
    | implicit hinner' hroot hchild hrest' =>
      cases hinner.symm.trans hinner'
      obtain ⟨u', hu', hsame'⟩ := h.frame _ u (.item hroot hchild hrest') hrest
      obtain ⟨u'', hu'', hsame''⟩ := hsame.getPath hu'
      have hcontainer : Container inner' := h.container hroot hrest.left_ne_nil
      rw [getPath_implicit _ hy (hcontainer.of_same hsame) (ne_decodeJson hchild)]
      exact ⟨u'', hu'', hsame'.trans hsame''⟩

theorem replacePath_item {child' : Json} {depth : Nat} (hroot : Container root)
    (hchild : subscript root component = some child)
    (h : replacePath loads dumps value depth child rest = .ok child') :
    replacePath loads dumps value (depth + 1) root (component :: rest) =
      .ok (setItem root component child') := by
  have hitem := getItem_ok.mpr hchild
  cases root with
  | arr items =>
    cases component with
    | decodeJson => cases hchild
    | _ => rw [replacePath, hitem] <;> simp_all [bind, Except.bind, pure, Except.pure]
  | obj fields =>
    cases component with
    | decodeJson => cases hchild
    | _ => rw [replacePath, hitem] <;> simp_all [bind, Except.bind, pure, Except.pure]
  | _ => exact hroot.elim

theorem replacePath_boundary {text : String} {depth : Nat}
    (hinner : decodeFragmentJson loads (.str text) = .ok inner)
    (h : replacePath loads dumps value depth inner rest = .ok inner') :
    replacePath loads dumps value (depth + 1) (.str text) (.decodeJson :: rest) =
      .ok (.str (dumps inner')) := by
  rw [replacePath, hinner]
  show (replacePath loads dumps value depth inner rest >>= fun replaced => _) = _
  rw [h]
  rfl

theorem replacePath_implicit {text : String} {depth : Nat} (hcomponent : component ≠ .decodeJson)
    (hinner : decodeFragmentJson loads (.str text) = .ok inner)
    (h : replacePath loads dumps value depth inner (component :: rest) = .ok inner') :
    replacePath loads dumps value (depth + 1) (.str text) (component :: rest) =
      .ok (.str (dumps inner')) := by
  rw [replacePath, hinner]
  · show (replacePath loads dumps value depth inner (component :: rest) >>= fun replaced => _) = _
    rw [h]
    rfl
  · exact hcomponent

theorem Leads.replaced (h : Leads loads root path w)
    (hrestored : ∀ x, Encodes loads dumps value root path x → Restored loads dumps x) {depth : Nat}
    (hdepth : 2 * path.length < depth) :
    ∃ root', replacePath loads dumps value depth root path = .ok root' ∧
      Replaced loads value root path root' := by
  induction h generalizing depth with
  | here v =>
    obtain ⟨depth, rfl⟩ := Nat.exists_eq_succ_of_ne_zero (Nat.ne_of_gt (Nat.zero_lt_of_lt hdepth))
    refine ⟨value, rfl, fun _ hne => absurd rfl hne, ⟨value, rfl, .refl value⟩, ?_⟩
    intro q u _ hapart
    exact absurd rfl hapart.left_ne_nil
  | @item root child w component rest hroot hchild hrest ih =>
    rw [length_cons] at hdepth
    obtain ⟨depth, rfl⟩ := Nat.exists_eq_succ_of_ne_zero (Nat.ne_of_gt (Nat.zero_lt_of_lt hdepth))
    have hless : 2 * rest.length < depth := by omega
    obtain ⟨child', hchild', hreplaced⟩ :=
      ih (fun x hx => hrestored x (.behindItem hroot hchild hx)) hless
    exact ⟨_, replacePath_item hroot hchild hchild', hreplaced.item hroot hchild⟩
  | @boundary text inner w rest hinner hrest ih =>
    rw [length_cons] at hdepth
    obtain ⟨depth, rfl⟩ := Nat.exists_eq_succ_of_ne_zero (Nat.ne_of_gt (Nat.zero_lt_of_lt hdepth))
    have hless : 2 * rest.length < depth := by omega
    obtain ⟨inner', hinner', hreplaced⟩ :=
      ih (fun x hx => hrestored x (.behindBoundary hinner hx)) hless
    exact ⟨_, replacePath_boundary hinner hinner',
      hreplaced.text hinner (.inl rfl) (hrestored _ (.boundary hinner hinner'))⟩
  | @implicit text inner child w component rest hinner hroot hchild hrest ih =>
    rw [length_cons] at hdepth
    obtain ⟨depth, rfl⟩ : ∃ d, depth = d + 2 := ⟨depth - 2, by omega⟩
    have hcomponent := ne_decodeJson hchild
    have hless : 2 * rest.length < depth := by omega
    obtain ⟨child', hchild', hreplaced⟩ := ih
      (fun x hx => hrestored x (.behindImplicit hinner hcomponent (.behindItem hroot hchild hx))) hless
    have hinner' := replacePath_item hroot hchild hchild'
    exact ⟨_, replacePath_implicit hcomponent hinner hinner',
      (hreplaced.item hroot hchild).text hinner (.inr ⟨rfl, hroot, _, _, rfl, hcomponent⟩)
        (hrestored _ (.implicit hinner hcomponent hinner'))⟩

/-- Where a path resolves to a part of the value and every string on the way can be encoded again, the
replacement goes through, the path reads what was put there, and every other path to a part that
neither contains the place nor lies in it reads what it read before. -/
theorem replacement_is_a_lens (loads : String → Option Json) (dumps : Json → String)
    (root value : Json) (path : List PathComponent)
    (hresolves : ∃ w, getPath loads root path = .ok w) (hpart : ¬ TakesCharacter loads root path)
    (hrestored : ∀ x, Encodes loads dumps value root path x → Restored loads dumps x) (depth : Nat)
    (hdepth : 2 * path.length < depth) :
    ∃ root', replacePath loads dumps value depth root path = .ok root' ∧
      (∃ w, getPath loads root' path = .ok w ∧ Same value w) ∧
      ∀ other u, getPath loads root other = .ok u → ¬ TakesCharacter loads root other →
        ¬ bare path <+: bare other → ¬ bare other <+: bare path →
        ∃ u', getPath loads root' other = .ok u' ∧ Same u u' := by
  obtain ⟨w, hw⟩ := hresolves
  have hleads : Leads loads root path w := (leads_or_takesCharacter hw).resolve_right hpart
  obtain ⟨root', hroot', hreplaced⟩ := hleads.replaced hrestored hdepth
  refine ⟨root', hroot', hreplaced.read, ?_⟩
  intro other u hu hother hbefore hbehind
  exact hreplaced.frame other u ((leads_or_takesCharacter hu).resolve_right hother) ⟨hbefore, hbehind⟩

namespace Sample

def loadsFew (text : String) : Option Json :=
  if text = "\x7b\"k\":1\x7d" then some (.obj [("k", .num 1)])
  else if text = "\x7b\"k\":2\x7d" then some (.obj [("k", .num 2)])
  else if text = "\"[1]\"" then some (.str "[1]")
  else if text = "\"[2]\"" then some (.str "[2]")
  else if text = "[1]" then some (.arr [.num 1])
  else if text = "[2]" then some (.arr [.num 2])
  else none

def dumpsFew (value : Json) : String :=
  if value = .obj [("k", .num 2)] then "\x7b\"k\":2\x7d"
  else if value = .arr [.num 2] then "[2]"
  else if value = .str "[2]" then "\"[2]\""
  else ""

def envelope : Json := .obj [("s", .str "\x7b\"k\":1\x7d")]

theorem envelope_restored : ∀ x, Encodes loadsFew dumpsFew (.num 2) envelope
    [.key "s", .decodeJson, .key "k"] x → Restored loadsFew dumpsFew x := by
  intro x hx
  have hinner : decodeFragmentJson loadsFew (.str "\x7b\"k\":1\x7d") = .ok (.obj [("k", .num 1)]) := by
    rfl
  have hresult : ∀ depth, replacePath loadsFew dumpsFew (.num 2) depth (.obj [("k", .num 1)]) [.key "k"] = .ok x →
      x = .obj [("k", .num 2)] := by
    intro depth h
    match depth with
    | 0 => cases h
    | 1 => cases h
    | depth + 2 => exact (Except.ok.inj h).symm
  cases hx with
  | behindItem hroot hchild hbehind =>
    cases hchild
    cases hbehind with
    | boundary hinner' hx =>
      cases hinner.symm.trans hinner'
      rw [hresult _ hx]
      exact ⟨.obj [("k", .num 2)], rfl, .refl _⟩
    | implicit hinner' hcomponent => exact absurd rfl hcomponent
    | behindBoundary hinner' hbehind =>
      cases hinner.symm.trans hinner'
      cases hbehind with
      | behindItem hroot hchild hbehind => cases hbehind
    | behindImplicit hinner' hcomponent => exact absurd rfl hcomponent
    | behindItem hroot => exact hroot.elim

end Sample

theorem envelope_is_replaced : ∃ root',
    replacePath Sample.loadsFew Sample.dumpsFew (.num 2) 7 Sample.envelope
      [.key "s", .decodeJson, .key "k"] = .ok root' ∧
    ∃ w, getPath Sample.loadsFew root' [.key "s", .decodeJson, .key "k"] = .ok w ∧ Same (.num 2) w := by
  have hinner : decodeFragmentJson Sample.loadsFew (.str "\x7b\"k\":1\x7d") =
      .ok (.obj [("k", .num 1)]) := rfl
  have hresult : Leads Sample.loadsFew (.obj [("k", .num 1)]) [.key "k"] (.num 1) :=
    .item trivial rfl (.here _)
  have hleads : Leads Sample.loadsFew Sample.envelope [.key "s", .decodeJson, .key "k"] (.num 1) :=
    .item trivial rfl (.boundary hinner hresult)
  have hpart : ¬ TakesCharacter Sample.loadsFew Sample.envelope [.key "s", .decodeJson, .key "k"] := by
    rintro ⟨front, i, back, text, text', hpath, -, -⟩
    have hmem : PathComponent.index i ∈ [PathComponent.key "s", .decodeJson, .key "k"] := by
      rw [hpath]
      simp
    simp at hmem
  obtain ⟨root', hroot', hread, -⟩ := replacement_is_a_lens Sample.loadsFew Sample.dumpsFew Sample.envelope
    (.num 2) _ ⟨_, hleads.getPath⟩ hpart Sample.envelope_restored 7 (by decide)
  exact ⟨root', hroot', hread⟩

/-- A path may resolve to a character, which a replacement never meets; and of two paths that differ
in a boundary alone, neither is a prefix of the other. -/
theorem replacement_is_not_always_a_lens :
    (¬ ∀ (loads : String → Option Json) (dumps : Json → String) (root value w : Json)
      (path : List PathComponent) (depth : Nat), getPath loads root path = .ok w → 2 * path.length < depth →
      ∃ root', replacePath loads dumps value depth root path = .ok root' ∧
        ∃ w', getPath loads root' path = .ok w' ∧ Same value w') ∧
    ¬ ∀ (loads : String → Option Json) (dumps : Json → String) (root value w u root' : Json)
      (path other : List PathComponent) (depth : Nat), getPath loads root path = .ok w →
      replacePath loads dumps value depth root path = .ok root' → getPath loads root other = .ok u →
      ¬ path <+: other → ¬ other <+: path → ∃ u', getPath loads root' other = .ok u' ∧ Same u u' := by
  refine ⟨?_, ?_⟩
  · intro h
    obtain ⟨root', hroot', w', hw', hsame⟩ := h Sample.loadsFew Sample.dumpsFew (.str "\"[1]\"") (.num 2)
      (.str "[") [.index 0] 4 (rfl) (by decide)
    have hreplaced : replacePath Sample.loadsFew Sample.dumpsFew (.num 2) 4 (.str "\"[1]\"") [.index 0] =
        .ok (.str "\"[2]\"") := rfl
    cases hroot'.symm.trans hreplaced
    have hread : getPath Sample.loadsFew (.str "\"[2]\"") [.index 0] = .ok (.str "[") := rfl
    cases hw'.symm.trans hread
    have hshape := hsame.alike.hollow_eq
    cases hshape
  · intro h
    obtain ⟨u', hu', hsame⟩ := h Sample.loadsFew Sample.dumpsFew Sample.envelope (.num 2) (.num 1) (.num 1)
      (.obj [("s", .str "\x7b\"k\":2\x7d")]) [.key "s", .decodeJson, .key "k"] [.key "s", .key "k"] 7
      (rfl) (rfl) (rfl) (by decide) (by decide)
    have hread : getPath Sample.loadsFew (.obj [("s", .str "\x7b\"k\":2\x7d")]) [.key "s", .key "k"] =
        .ok (.num 2) := rfl
    cases hu'.symm.trans hread
    have hshape := hsame.alike.hollow_eq
    simp [hollow] at hshape

end OpenAgent.Privacy
