import MontyServer.Convert

/-!
# The natural form, there and back

The value format as the documentation gives it is a relation (`Encodes`) between an object and a
JSON value that stands for it. `json_to_monty` is its inverse: it takes every such value to its
object, and whatever it accepts is an object of the form. It accepts nothing with a malformed tag
in it.
-/

namespace MontyServer

variable [Crates]

/-! ## The format -/

/-- The objects the natural form is for, built to any depth. -/
inductive Natural : MontyObject → Prop
  | none : Natural .None
  | ellipsis : Natural .Ellipsis
  | bool (b : Bool) : Natural (.Bool b)
  | int (i : Int64) : Natural (.Int i)
  | float (f : F64) : Natural (.Float f)
  | string (s : String) : Natural (.String s)
  | bytes (bytes : List UInt8) : Natural (.Bytes bytes)
  | function (name : String) : Natural (.Function name none)
  | path (path : String) : Natural (.Path path)
  | list {items : List MontyObject} (h : ∀ o ∈ items, Natural o) : Natural (.List items)
  | tagged (tag : ArrayTag) {items : List MontyObject} (h : ∀ o ∈ items, Natural o) :
    Natural (tag.wrap items)
  | dict {pairs : List (MontyObject × MontyObject)} (hkeys : ∀ p ∈ pairs, Natural p.1)
    (hvalues : ∀ p ∈ pairs, Natural p.2) : Natural (.Dict pairs)

/-- `Number::from` of an `i64`. -/
def Number.fromI64 (i : Int64) : Number :=
  if 0 ≤ i.toInt then .posInt (.ofNat i.toInt.toNat) else .negInt i

/-- The keys of a plain JSON object: strings in the order of the map, and not a single one that
starts with `$`. -/
def PlainKeys (keys : List String) : Prop :=
  keys.Pairwise (· < ·) ∧ ∀ key, keys = [key] → key.toList.head? ≠ some '$'

/-- The dicts that are written as a plain JSON object. -/
def PlainDict (pairs : List (MontyObject × MontyObject)) : Prop :=
  ∃ keys, pairs.map Prod.fst = keys.map .String ∧ PlainKeys keys

/-- `v` is the natural form of `o`. The elements of a sequence stand in `rows`, each beside its
natural form. -/
inductive Encodes : MontyObject → Value → Prop
  | none : Encodes .None .null
  | bool (b : Bool) : Encodes (.Bool b) (.bool b)
  | int (i : Int64) : Encodes (.Int i) (.number (.fromI64 i))
  | float (f : F64) (hf : f.isFinite = true) : Encodes (.Float f) (.number (.float f hf))
  | nan : Encodes (.Float .NAN) (.object [("$float", .string "nan")])
  | inf : Encodes (.Float .INFINITY) (.object [("$float", .string "inf")])
  | negInf : Encodes (.Float .NEG_INFINITY) (.object [("$float", .string "-inf")])
  | string (s : String) : Encodes (.String s) (.string s)
  | base64 (bytes : List UInt8) :
    Encodes (.Bytes bytes) (.object [("$bytes", .string (Crates.base64Encode bytes))])
  | bytes (bytes : List UInt8) :
    Encodes (.Bytes bytes)
      (.object [("$bytes", .array (bytes.map fun b => .number (.posInt b.toUInt64)))])
  | ellipsis : Encodes .Ellipsis (.object [("$ellipsis", .string "...")])
  | function (name : String) :
    Encodes (.Function name none) (.object [("$function", .string name)])
  | path (path : String) : Encodes (.Path path) (.object [("$path", .string path)])
  | list (rows : List (MontyObject × Value)) (h : ∀ r ∈ rows, Encodes r.1 r.2) :
    Encodes (.List (rows.map (·.1))) (.array (rows.map (·.2)))
  | tagged (tag : ArrayTag) (rows : List (MontyObject × Value)) (h : ∀ r ∈ rows, Encodes r.1 r.2) :
    Encodes (tag.wrap (rows.map (·.1))) (.object [(tag.name, .array (rows.map (·.2)))])
  | dict (rows : List (String × MontyObject × Value)) (hplain : PlainKeys (rows.map (·.1)))
    (h : ∀ r ∈ rows, Encodes r.2.1 r.2.2) :
    Encodes (.Dict (rows.map fun r => (.String r.1, r.2.1)))
      (.object (rows.map fun r => (r.1, r.2.2)))
  | dictTag (rows : List ((MontyObject × Value) × MontyObject × Value))
    (hplain : ¬ PlainDict (rows.map fun r => (r.1.1, r.2.1)))
    (hkeys : ∀ r ∈ rows, Encodes r.1.1 r.1.2) (hvalues : ∀ r ∈ rows, Encodes r.2.1 r.2.2) :
    Encodes (.Dict (rows.map fun r => (r.1.1, r.2.1)))
      (.object [("$dict", .array (rows.map fun r => .array [r.1.2, r.2.2]))])

/-- The bodies that have the shape for their tag: the table of the tags. -/
inductive TagBody : String → Value → Prop
  | array (tag : ArrayTag) (items : List Value) : TagBody tag.name (.array items)
  | base64 {encoded : String} {bytes : List UInt8}
    (h : Crates.base64Decode encoded = .ok bytes) : TagBody "$bytes" (.string encoded)
  | bytes {items : List Value}
    (h : ∀ item ∈ items, ∃ byte, item.asU64 = some byte ∧ byte ≤ 255) :
    TagBody "$bytes" (.array items)
  | ellipsis (body : Value) : TagBody "$ellipsis" body
  | float {s : String} (h : s = "nan" ∨ s = "inf" ∨ s = "-inf") : TagBody "$float" (.string s)
  | dict {entries : List Value} (h : ∀ entry ∈ entries, ∃ k v, entry = .array [k, v]) :
    TagBody "$dict" (.array entries)
  | function (name : String) : TagBody "$function" (.string name)
  | path (path : String) : TagBody "$path" (.string path)

/-- A single-key `$` object with an unknown tag, or with a body of the wrong shape for its tag. -/
def Value.Malformed (v : Value) : Prop :=
  ∃ tag body, v = .object [(tag, body)] ∧ tag.toList.head? = some '$' ∧ ¬ TagBody tag body

/-- The nodes right below a node. The body of `$ellipsis` is ignored. -/
def Value.children : Value → List Value
  | .array items => items
  | .object [(key, body)] => if key = "$ellipsis" then [] else [body]
  | .object map => map.map Prod.snd
  | _ => []

/-- `x` is a node of the value, at any depth. -/
inductive Inside (x : Value) : Value → Prop
  | here : Inside x x
  | deeper {v child : Value} (hchild : child ∈ v.children) (h : Inside x child) : Inside x v

/-! ## Decoding the natural form -/

omit [Crates] in
theorem Number.asI64_fromI64 (i : Int64) : (Number.fromI64 i).asI64 = some i := by
  have hlt := i.toInt_lt
  rw [fromI64]
  split
  · next h =>
    have hsmall : i.toInt.toNat < 2 ^ 63 := by omega
    have hnat : (UInt64.ofNat i.toInt.toNat).toNat = i.toInt.toNat :=
      UInt64.toNat_ofNat_of_lt' (hsmall.trans (by decide))
    rw [asI64, hnat, if_pos hsmall, ← Int64.ofInt_eq_ofNat, Int.toNat_of_nonneg h,
      Int64.ofInt_toInt]
  · rfl

omit [Crates] in
theorem bytesOfArray_map (bytes : List UInt8) :
    bytesOfArray (bytes.map fun b => .number (.posInt b.toUInt64)) = .ok bytes := by
  induction bytes with
  | nil => rfl
  | cons b bytes ih =>
    have hle : b.toUInt64 ≤ 255 := by
      rw [UInt64.le_iff_toNat_le, UInt8.toNat_toUInt64]
      have := b.toNat_lt
      show b.toNat ≤ 255
      omega
    rw [List.map_cons, bytesOfArray, ih]
    simp only [Value.asU64, Number.asU64, Option.filter_some, decide_eq_true hle, if_true]
    simp [Except.map]

/-- A plain object decodes member by member. -/
theorem objectToMonty_plain {map : List (String × Value)} (h : PlainKeys (map.map (·.1))) :
    objectToMonty map = (membersToMonty map).map .Dict := by
  have htag : singleDollarTag map = none := by
    match map with
    | [] => rfl
    | [(key, value)] => exact if_neg (h.2 key rfl)
    | _ :: _ :: _ => rfl
  rw [objectToMonty]
  split
  · next hsome => cases htag.symm.trans hsome
  · rfl

/-- A tagged object decodes by its tag. -/
theorem jsonToMonty_tagged {tag : String} {body : Value} (h : tag.toList.head? = some '$') :
    jsonToMonty (.object [(tag, body)]) = taggedToMonty tag body := by
  have htag : singleDollarTag [(tag, body)] = some (tag, body) := if_pos h
  rw [jsonToMonty, objectToMonty]
  split
  · next tag' body' hsome => cases htag.symm.trans hsome; rfl
  · next hnone => cases htag.symm.trans hnone

omit [Crates] in
theorem ArrayTag.name_head (tag : ArrayTag) : tag.name.toList.head? = some '$' := by
  cases tag <;> decide

theorem ArrayTag.taggedToMonty_name (tag : ArrayTag) (body : Value) :
    taggedToMonty tag.name body = (expectArray tag.name body).map tag.wrap := by
  cases tag <;> rw [taggedToMonty] <;> rfl

/-- **The natural form of an object decodes to the object.** -/
theorem Encodes.decodes
    (hdisplay : ∀ f : F64, f.isFinite = true → floatText (Crates.displayF64 f) = true)
    (hbase64 : ∀ bytes, Crates.base64Decode (Crates.base64Encode bytes) = .ok bytes)
    {o : MontyObject} {v : Value} (h : Encodes o v) : jsonToMonty v = .ok o := by
  induction h with
  | none => rw [jsonToMonty]
  | bool b => rw [jsonToMonty]
  | int i => rw [jsonToMonty, numberToMonty_of_asI64 (Number.asI64_fromI64 i)]
  | float f hf => rw [jsonToMonty, numberToMonty_of_float (hdisplay f hf)]
  | nan => rw [jsonToMonty_tagged (by decide), taggedToMonty]; rfl
  | inf => rw [jsonToMonty_tagged (by decide), taggedToMonty]; rfl
  | negInf => rw [jsonToMonty_tagged (by decide), taggedToMonty]; rfl
  | string s => rw [jsonToMonty]
  | base64 bytes =>
    rw [jsonToMonty_tagged (by decide), taggedToMonty]
    show bytesToMonty (.string (Crates.base64Encode bytes)) = _
    rw [bytesToMonty, hbase64]
  | bytes bytes =>
    rw [jsonToMonty_tagged (by decide), taggedToMonty]
    show bytesToMonty (.array _) = _
    rw [bytesToMonty, bytesOfArray_map]
    rfl
  | ellipsis => rw [jsonToMonty_tagged (by decide), taggedToMonty]; rfl
  | function name => rw [jsonToMonty_tagged (by decide), taggedToMonty]; rfl
  | path path => rw [jsonToMonty_tagged (by decide), taggedToMonty]; rfl
  | list rows h ih => rw [jsonToMonty, jsonArrayToMonty_eq_mapM, Rounds.mapM_rows rows _ _ ih]; rfl
  | tagged tag rows h ih =>
    have hitems : jsonArrayToMonty (rows.map (·.2)) = .ok (rows.map (·.1)) := by
      rw [jsonArrayToMonty_eq_mapM, Rounds.mapM_rows rows _ _ ih]
    rw [jsonToMonty_tagged tag.name_head, tag.taggedToMonty_name, expectArray, hitems]
    rfl
  | dict rows hplain h ih =>
    have hmembers : membersToMonty (rows.map fun r => (r.1, r.2.2)) =
        .ok (rows.map fun r => (.String r.1, r.2.1)) := by
      rw [membersToMonty_eq_mapM]
      refine Rounds.mapM_rows rows _ _ ?_
      intro r hr
      rw [memberToMonty, ih r hr]
      rfl
    have hkeys : PlainKeys ((rows.map fun r => (r.1, r.2.2)).map (·.1)) := by
      rw [List.map_map]
      exact hplain
    rw [jsonToMonty, objectToMonty_plain hkeys, hmembers]
    rfl
  | dictTag rows hplain hkeys hvalues ihkeys ihvalues =>
    have hentries : dictEntriesToMonty (rows.map fun r => .array [r.1.2, r.2.2]) =
        .ok (rows.map fun r => (r.1.1, r.2.1)) := by
      rw [dictEntriesToMonty_eq_mapM]
      refine Rounds.mapM_rows rows _ _ ?_
      intro r hr
      rw [dictEntryToMonty, ihkeys r hr, ihvalues r hr]
      rfl
    rw [jsonToMonty_tagged (by decide), taggedToMonty]
    show dictTagToMonty (.array _) = _
    rw [dictTagToMonty, hentries]
    rfl

theorem exists_value_rows {os : List MontyObject} (h : ∀ o ∈ os, ∃ v, Encodes o v) :
    ∃ rows : List (MontyObject × Value), rows.map (·.1) = os ∧ ∀ r ∈ rows, Encodes r.1 r.2 :=
  Rounds.exists_rows fun o ho => (h o ho).elim fun v hv => ⟨(o, v), rfl, hv⟩

/-- **Every object of the form has a natural form.** -/
theorem Natural.exists_encodes {o : MontyObject} (h : Natural o) : ∃ v, Encodes o v := by
  induction h with
  | none => exact ⟨_, .none⟩
  | ellipsis => exact ⟨_, .ellipsis⟩
  | bool b => exact ⟨_, .bool b⟩
  | int i => exact ⟨_, .int i⟩
  | float f =>
    cases hf : f.isFinite with
    | true => exact ⟨_, .float f hf⟩
    | false =>
      rcases F64.eq_of_not_isFinite hf with rfl | rfl | rfl
      · exact ⟨_, .nan⟩
      · exact ⟨_, .inf⟩
      · exact ⟨_, .negInf⟩
  | string s => exact ⟨_, .string s⟩
  | bytes bytes => exact ⟨_, .bytes bytes⟩
  | function name => exact ⟨_, .function name⟩
  | path path => exact ⟨_, .path path⟩
  | list _ ih =>
    obtain ⟨rows, rfl, hrows⟩ := exists_value_rows ih
    exact ⟨_, .list rows hrows⟩
  | tagged tag _ ih =>
    obtain ⟨rows, rfl, hrows⟩ := exists_value_rows ih
    exact ⟨_, .tagged tag rows hrows⟩
  | @dict pairs _ _ ihkeys ihvalues =>
    by_cases hplain : PlainDict pairs
    · obtain ⟨keys, hkeys, hp⟩ := hplain
      have hstring : ∀ p ∈ pairs, ∃ r : String × MontyObject × Value,
          (MontyObject.String r.1, r.2.1) = p ∧ Encodes r.2.1 r.2.2 := by
        intro p hpair
        have hkey : p.1 ∈ keys.map MontyObject.String := hkeys ▸ List.mem_map_of_mem hpair
        obtain ⟨key, -, hkey⟩ := List.mem_map.mp hkey
        obtain ⟨v, hv⟩ := ihvalues p hpair
        exact ⟨(key, p.2, v), by rw [hkey], hv⟩
      obtain ⟨rows, rfl, hrows⟩ := Rounds.exists_rows hstring
      have hrowkeys : rows.map (·.1) = keys := by
        have hinj : Function.Injective MontyObject.String := fun _ _ h => by cases h; rfl
        apply List.map_injective_iff.mpr hinj
        rw [← hkeys, List.map_map, List.map_map]
        rfl
      exact ⟨_, .dict rows (hrowkeys ▸ hp) hrows⟩
    · have hboth : ∀ p ∈ pairs, ∃ r : (MontyObject × Value) × MontyObject × Value,
          (r.1.1, r.2.1) = p ∧ Encodes r.1.1 r.1.2 ∧ Encodes r.2.1 r.2.2 := by
        intro p hpair
        obtain ⟨k, hk⟩ := ihkeys p hpair
        obtain ⟨v, hv⟩ := ihvalues p hpair
        exact ⟨((p.1, k), (p.2, v)), rfl, hk, hv⟩
      obtain ⟨rows, rfl, hrows⟩ := Rounds.exists_rows hboth
      exact ⟨_, .dictTag rows hplain (fun r hr => (hrows r hr).1) fun r hr => (hrows r hr).2⟩

/-! ## What is accepted -/

/-- The decoded tags: what each tag makes of its body. -/
inductive TagDecodes : String → Value → MontyObject → Prop
  | array (tag : ArrayTag) {items : List Value} {os : List MontyObject}
    (h : jsonArrayToMonty items = .ok os) : TagDecodes tag.name (.array items) (tag.wrap os)
  | base64 {encoded : String} {bytes : List UInt8} (h : Crates.base64Decode encoded = .ok bytes) :
    TagDecodes "$bytes" (.string encoded) (.Bytes bytes)
  | bytes {items : List Value} {bytes : List UInt8} (h : bytesOfArray items = .ok bytes) :
    TagDecodes "$bytes" (.array items) (.Bytes bytes)
  | ellipsis (body : Value) : TagDecodes "$ellipsis" body .Ellipsis
  | float {s : String} (f : F64) (h : s = "nan" ∨ s = "inf" ∨ s = "-inf") :
    TagDecodes "$float" (.string s) (.Float f)
  | dict {entries : List Value} {pairs : List (MontyObject × MontyObject)}
    (h : dictEntriesToMonty entries = .ok pairs) :
    TagDecodes "$dict" (.array entries) (.Dict pairs)
  | function (name : String) : TagDecodes "$function" (.string name) (.Function name none)
  | path (path : String) : TagDecodes "$path" (.string path) (.Path path)

theorem expectArray_ok {tag : String} {body : Value} {os : List MontyObject}
    (h : expectArray tag body = .ok os) :
    ∃ items, body = .array items ∧ jsonArrayToMonty items = .ok os := by
  unfold expectArray at h
  split at h
  · next items => exact ⟨items, rfl, h⟩
  · cases h

theorem bytesToMonty_ok {body : Value} {o : MontyObject} (h : bytesToMonty body = .ok o) :
    TagDecodes "$bytes" body o := by
  unfold bytesToMonty at h
  split at h
  · next encoded =>
    split at h
    · next bytes hbytes => cases h; exact .base64 hbytes
    · cases h
  · next items =>
    obtain ⟨bytes, hbytes, rfl⟩ := Rounds.map_eq_ok h
    exact .bytes hbytes
  · cases h

omit [Crates] in
theorem asStr_eq_some {body : Value} {s : String} (h : body.asStr = some s) : body = .string s := by
  unfold Value.asStr at h
  split at h
  · cases h; rfl
  · cases h

theorem floatTagToMonty_ok {body : Value} {o : MontyObject} (h : floatTagToMonty body = .ok o) :
    TagDecodes "$float" body o := by
  unfold floatTagToMonty at h
  split at h
  · next s hs =>
    rw [asStr_eq_some hs]
    split at h
    · next hnan => cases h; exact .float _ (.inl hnan)
    · split at h
      · next hinf => cases h; exact .float _ (.inr (.inl hinf))
      · split at h
        · next hneg => cases h; exact .float _ (.inr (.inr hneg))
        · cases h
  · cases h

theorem dictTagToMonty_ok {body : Value} {o : MontyObject} (h : dictTagToMonty body = .ok o) :
    TagDecodes "$dict" body o := by
  unfold dictTagToMonty at h
  split at h
  · next entries =>
    obtain ⟨pairs, hpairs, rfl⟩ := Rounds.map_eq_ok h
    exact .dict hpairs
  · cases h

theorem functionTagToMonty_ok {body : Value} {o : MontyObject}
    (h : functionTagToMonty body = .ok o) : TagDecodes "$function" body o := by
  unfold functionTagToMonty at h
  split at h
  · next name hname => rw [asStr_eq_some hname]; cases h; exact .function name
  · cases h

theorem pathTagToMonty_ok {body : Value} {o : MontyObject} (h : pathTagToMonty body = .ok o) :
    TagDecodes "$path" body o := by
  unfold pathTagToMonty at h
  split at h
  · next path hpath => rw [asStr_eq_some hpath]; cases h; exact .path path
  · cases h

/-- **What an accepted tag is**: one of the known ones, with a body it can read. -/
theorem taggedToMonty_ok {tag : String} {body : Value} {o : MontyObject}
    (h : taggedToMonty tag body = .ok o) : TagDecodes tag body o := by
  have harray : ∀ t : ArrayTag, (expectArray t.name body).map t.wrap = .ok o →
      TagDecodes t.name body o := by
    intro t h
    obtain ⟨os, hos, rfl⟩ := Rounds.map_eq_ok h
    obtain ⟨items, rfl, hitems⟩ := expectArray_ok hos
    exact .array t hitems
  unfold taggedToMonty at h
  split_ifs at h with h₁ h₂ h₃ h₄ h₅ h₆ h₇ h₈ h₉
  · subst h₁; exact harray .tuple h
  · subst h₂; exact harray .set h
  · subst h₃; exact harray .frozenset h
  · subst h₄; exact bytesToMonty_ok h
  · subst h₅; cases h; exact .ellipsis body
  · subst h₆; exact floatTagToMonty_ok h
  · subst h₇; exact dictTagToMonty_ok h
  · subst h₈; exact functionTagToMonty_ok h
  · subst h₉; exact pathTagToMonty_ok h

theorem jsonToMonty_array_ok {items : List Value} {o : MontyObject}
    (h : jsonToMonty (.array items) = .ok o) :
    ∃ os, List.Forall₂ (fun item o => jsonToMonty item = .ok o) items os ∧ o = .List os := by
  rw [jsonToMonty, jsonArrayToMonty_eq_mapM] at h
  obtain ⟨os, hos, rfl⟩ := Rounds.map_eq_ok h
  exact ⟨os, Rounds.mapM_eq_ok_iff.mp hos, rfl⟩

/-- **What an accepted object is**: a tagged form or a plain dict. -/
theorem jsonToMonty_object_ok {map : List (String × Value)} {o : MontyObject}
    (h : jsonToMonty (.object map) = .ok o) :
    (∃ tag body, map = [(tag, body)] ∧ tag.toList.head? = some '$' ∧ TagDecodes tag body o) ∨
    singleDollarTag map = none ∧ ∃ pairs,
      List.Forall₂ (fun m p => memberToMonty m = .ok p) map pairs ∧ o = .Dict pairs := by
  rw [jsonToMonty, objectToMonty] at h
  split at h
  · next tag body hsome =>
    obtain rfl := singleDollarTag_eq_some hsome
    have hhead : tag.toList.head? = some '$' := by
      by_contra hne
      cases hsome.symm.trans (if_neg hne)
    exact .inl ⟨tag, body, rfl, hhead, taggedToMonty_ok h⟩
  · next hnone =>
    rw [membersToMonty_eq_mapM] at h
    obtain ⟨pairs, hpairs, rfl⟩ := Rounds.map_eq_ok h
    exact .inr ⟨hnone, pairs, Rounds.mapM_eq_ok_iff.mp hpairs, rfl⟩

theorem memberToMonty_ok {m : String × Value} {p : MontyObject × MontyObject}
    (h : memberToMonty m = .ok p) : p.1 = .String m.1 ∧ jsonToMonty m.2 = .ok p.2 := by
  rw [memberToMonty] at h
  cases ho : jsonToMonty m.2 with
  | error e => rw [ho] at h; cases h
  | ok o => rw [ho] at h; cases h; exact ⟨rfl, rfl⟩

theorem dictEntryToMonty_ok {entry : Value} {p : MontyObject × MontyObject}
    (h : dictEntryToMonty entry = .ok p) :
    ∃ k v, entry = .array [k, v] ∧ jsonToMonty k = .ok p.1 ∧ jsonToMonty v = .ok p.2 := by
  unfold dictEntryToMonty at h
  split at h
  · next k v =>
    cases hk : jsonToMonty k with
    | error e => rw [hk] at h; cases h
    | ok key =>
      cases hv : jsonToMonty v with
      | error e => rw [hk, hv] at h; cases h
      | ok value => rw [hk, hv] at h; cases h; exact ⟨k, v, rfl, hk, hv⟩
  · cases h

/-- The body of an accepted `$dict` is itself accepted, as a list of lists. -/
theorem jsonToMonty_entries {entries : List Value} {pairs : List (MontyObject × MontyObject)}
    (h : dictEntriesToMonty entries = .ok pairs) :
    jsonToMonty (.array entries) = .ok (.List (pairs.map fun p => .List [p.1, p.2])) := by
  rw [dictEntriesToMonty_eq_mapM, Rounds.mapM_eq_ok_iff] at h
  have hlists : jsonArrayToMonty entries = .ok (pairs.map fun p => .List [p.1, p.2]) := by
    rw [jsonArrayToMonty_eq_mapM, Rounds.mapM_eq_ok_iff, List.forall₂_map_right_iff]
    apply h.imp
    intro entry p hentry
    obtain ⟨k, v, rfl, hk, hv⟩ := dictEntryToMonty_ok hentry
    rw [jsonToMonty, jsonArrayToMonty, jsonArrayToMonty, jsonArrayToMonty, hk, hv]
    rfl
  rw [jsonToMonty, hlists]
  rfl

theorem numberToMonty_natural {n : Number} {o : MontyObject} (h : numberToMonty n = .ok o) :
    Natural o := by
  unfold numberToMonty at h
  split at h
  · next i _ => cases h; exact .int i
  · simp only at h
    split at h
    · split at h
      · next f _ => cases h; exact .float f
      · cases h
    · cases h

omit [Crates] in
theorem Natural.items {os : List MontyObject} (h : Natural (.List os)) : ∀ o ∈ os, Natural o := by
  generalize hl : MontyObject.List os = l at h
  cases h with
  | list h => cases hl; exact h
  | tagged tag h => cases tag <;> cases hl
  | _ => cases hl

/-- **Whatever is accepted is an object of the form.** -/
theorem natural_of_decodes {v : Value} {o : MontyObject} (h : jsonToMonty v = .ok o) :
    Natural o := by
  induction hsize : sizeOf v using Nat.strong_induction_on generalizing v o with
  | _ size ih =>
    subst hsize
    cases v with
    | null => rw [jsonToMonty] at h; cases h; exact .none
    | bool b => rw [jsonToMonty] at h; cases h; exact .bool b
    | number n => rw [jsonToMonty] at h; exact numberToMonty_natural h
    | string s => rw [jsonToMonty] at h; cases h; exact .string s
    | array items =>
      obtain ⟨os, hos, rfl⟩ := jsonToMonty_array_ok h
      refine .list ?_
      intro o ho
      obtain ⟨item, hitem, hdecodes⟩ := Rounds.exists_of_mem_right hos ho
      have hlt := List.sizeOf_lt_of_mem hitem
      exact ih (sizeOf item) (by rw [Value.array.sizeOf_spec]; omega) hdecodes rfl
    | object map =>
      rcases jsonToMonty_object_ok h with ⟨tag, body, rfl, -, htag⟩ | ⟨-, pairs, hpairs, rfl⟩
      · -- the elements of a tagged form are those of its body, which is smaller
        have hbody : sizeOf body < sizeOf (Value.object [(tag, body)]) := by simp; omega
        cases htag with
        | @array tag items os hitems =>
          have hlist : jsonToMonty (.array items) = .ok (.List os) := by
            rw [jsonToMonty, hitems]
            rfl
          exact .tagged tag (ih _ hbody hlist rfl).items
        | base64 _ => exact .bytes _
        | bytes _ => exact .bytes _
        | ellipsis body => exact .ellipsis
        | float f _ => exact .float f
        | @dict entries pairs hentries =>
          have hlists := (ih _ hbody (jsonToMonty_entries hentries) rfl).items
          have hpair : ∀ p ∈ pairs, ∀ o ∈ [p.1, p.2], Natural o := fun p hp =>
            (hlists _ (List.mem_map_of_mem hp)).items
          exact .dict (fun p hp => hpair p hp _ (by simp)) fun p hp => hpair p hp _ (by simp)
        | function name => exact .function name
        | path path => exact .path path
      · have hmember : ∀ p ∈ pairs, ∃ key, p.1 = .String key ∧ Natural p.2 := by
          intro p hp
          obtain ⟨m, hm, hdecodes⟩ := Rounds.exists_of_mem_right hpairs hp
          obtain ⟨hkey, hvalue⟩ := memberToMonty_ok hdecodes
          have hlt := List.sizeOf_lt_of_mem hm
          have hsnd : sizeOf m.2 < sizeOf m := by
            cases m
            simp
          exact ⟨m.1, hkey, ih (sizeOf m.2) (by rw [Value.object.sizeOf_spec]; omega) hvalue rfl⟩
        refine .dict ?_ fun p hp => (hmember p hp).elim fun _ h => h.2
        intro p hp
        obtain ⟨key, hkey, -⟩ := hmember p hp
        rw [hkey]
        exact .string key

/-! ## What is rejected -/

omit [Crates] in
theorem bytesOfArray_ok {items : List Value} {bytes : List UInt8}
    (h : bytesOfArray items = .ok bytes) :
    ∀ item ∈ items, ∃ byte, item.asU64 = some byte ∧ byte ≤ 255 := by
  induction items generalizing bytes with
  | nil => simp
  | cons item items ih =>
    rw [bytesOfArray] at h
    split at h
    · cases h
    · next byte hbyte =>
      obtain ⟨bytes', hbytes, -⟩ := Rounds.map_eq_ok h
      obtain ⟨hsome, hle⟩ := Option.filter_eq_some_iff.mp hbyte
      intro item' hmem
      rcases List.mem_cons.mp hmem with rfl | hmem
      · exact ⟨byte, hsome, of_decide_eq_true hle⟩
      · exact ih hbytes item' hmem

/-- A tag that decodes has a body of the shape for it. -/
theorem TagDecodes.tagBody {tag : String} {body : Value} {o : MontyObject}
    (h : TagDecodes tag body o) : TagBody tag body := by
  cases h with
  | array tag h => exact .array tag _
  | base64 h => exact .base64 h
  | bytes h => exact .bytes (bytesOfArray_ok h)
  | ellipsis body => exact .ellipsis body
  | float f h => exact .float h
  | dict h =>
    rw [dictEntriesToMonty_eq_mapM, Rounds.mapM_eq_ok_iff] at h
    refine .dict ?_
    intro entry hentry
    obtain ⟨p, -, hp⟩ := Rounds.exists_of_mem_left h hentry
    obtain ⟨k, v, hkv, -⟩ := dictEntryToMonty_ok hp
    exact ⟨k, v, hkv⟩
  | function name => exact .function name
  | path path => exact .path path

theorem not_malformed_of_decodes {v : Value} {o : MontyObject} (h : jsonToMonty v = .ok o) :
    ¬ v.Malformed := by
  rintro ⟨tag, body, rfl, hhead, hbody⟩
  rw [jsonToMonty_tagged hhead] at h
  exact hbody (taggedToMonty_ok h).tagBody

/-- A byte in an array is an integer of `i64` too. -/
theorem jsonToMonty_of_byte {item : Value} {byte : UInt64} (h : item.asU64 = some byte)
    (hle : byte ≤ 255) : ∃ o, jsonToMonty item = .ok o := by
  have hsmall : byte.toNat ≤ 255 := UInt64.le_iff_toNat_le.mp hle
  have hread : ∀ n : Number, n.asU64 = some byte → ∃ i, n.asI64 = some i := by
    intro n hn
    cases n with
    | posInt n =>
      cases hn
      exact ⟨_, if_pos (by omega)⟩
    | negInt i => cases hn
    | float f hf => cases hn
    | literal text =>
      have hint := Text.parseInt_of_parseNat (Text.parseU64_eq_some hn)
      exact ⟨_, Text.parseI64_of_parseInt hint (by omega) (by omega)⟩
  cases item with
  | number n =>
    obtain ⟨i, hi⟩ := hread n h
    exact ⟨.Int i, by rw [jsonToMonty, numberToMonty_of_asI64 hi]⟩
  | _ => cases h

/-- The body of an accepted tag is accepted itself, unless it is the ignored one. -/
theorem TagDecodes.body_decodes {tag : String} {body : Value} {o : MontyObject}
    (h : TagDecodes tag body o) (htag : tag ≠ "$ellipsis") : ∃ o', jsonToMonty body = .ok o' := by
  have hstring : ∀ s, ∃ o', jsonToMonty (.string s) = .ok o' := fun s => ⟨.String s, by
    rw [jsonToMonty]⟩
  cases h with
  | @array tag items os hitems => exact ⟨.List os, by rw [jsonToMonty, hitems]; rfl⟩
  | base64 _ => exact hstring _
  | @bytes items bytes hbytes =>
    have hall := bytesOfArray_ok hbytes
    have hitems : ∀ item ∈ items, ∃ r : Value × MontyObject, r.1 = item ∧
        jsonToMonty r.1 = .ok r.2 := by
      intro item hitem
      obtain ⟨byte, hbyte, hle⟩ := hall item hitem
      obtain ⟨o, ho⟩ := jsonToMonty_of_byte hbyte hle
      exact ⟨(item, o), rfl, ho⟩
    obtain ⟨rows, rfl, hrows⟩ := Rounds.exists_rows hitems
    refine ⟨.List (rows.map (·.2)), ?_⟩
    rw [jsonToMonty, jsonArrayToMonty_eq_mapM, Rounds.mapM_rows rows _ _ hrows]
    rfl
  | ellipsis body => exact absurd rfl htag
  | float f _ => exact hstring _
  | dict hentries => exact ⟨_, jsonToMonty_entries hentries⟩
  | function name => exact hstring _
  | path path => exact hstring _

/-- **Step lemma**: every node right below an accepted one is accepted. -/
theorem child_decodes {v child : Value} {o : MontyObject} (h : jsonToMonty v = .ok o)
    (hchild : child ∈ v.children) : ∃ o', jsonToMonty child = .ok o' := by
  cases v with
  | array items =>
    obtain ⟨os, hos, -⟩ := jsonToMonty_array_ok h
    obtain ⟨o', -, ho'⟩ := Rounds.exists_of_mem_left hos hchild
    exact ⟨o', ho'⟩
  | object map =>
    rcases jsonToMonty_object_ok h with ⟨tag, body, rfl, -, htag⟩ | ⟨hnone, pairs, hpairs, -⟩
    · by_cases hellipsis : tag = "$ellipsis"
      · simp [Value.children, hellipsis] at hchild
      · rw [Value.children, if_neg hellipsis, List.mem_singleton] at hchild
        rw [hchild]
        exact htag.body_decodes hellipsis
    · have hmem : ∃ m ∈ map, m.2 = child := by
        unfold Value.children at hchild
        split at hchild
        · next items heq => cases heq
        · next key body heq =>
          cases heq
          split at hchild
          · cases hchild
          · exact ⟨_, List.mem_singleton_self _, (List.mem_singleton.mp hchild).symm⟩
        · next map' _ heq => cases heq; exact List.mem_map.mp hchild
        · cases hchild
      obtain ⟨m, hm, rfl⟩ := hmem
      obtain ⟨p, -, hp⟩ := Rounds.exists_of_mem_left hpairs hm
      exact ⟨p.2, (memberToMonty_ok hp).2⟩
  | _ => cases hchild

/-- **Every node of an accepted value is accepted.** -/
theorem Inside.decodes {x v : Value} (h : Inside x v) {o : MontyObject}
    (hv : jsonToMonty v = .ok o) : ∃ o', jsonToMonty x = .ok o' := by
  induction h generalizing o with
  | here => exact ⟨o, hv⟩
  | deeper hchild _ ih =>
    obtain ⟨o', ho'⟩ := child_decodes hv hchild
    exact ih ho'

/-- **The natural form, there and back.** Every object of the form has a natural form, which
`json_to_monty` takes back to it; whatever it accepts is such an object, so that decoding, encoding
and decoding again is decoding once; and a value with a malformed tag anywhere in it is rejected. -/
theorem natural_form_round_trip
    (hdisplay : ∀ f : F64, f.isFinite = true → floatText (Crates.displayF64 f) = true)
    (hbase64 : ∀ bytes, Crates.base64Decode (Crates.base64Encode bytes) = .ok bytes) :
    (∀ o, Natural o → (∃ v, Encodes o v) ∧ ∀ v, Encodes o v → jsonToMonty v = .ok o) ∧
    (∀ v o, jsonToMonty v = .ok o →
      Natural o ∧ ∃ v', Encodes o v' ∧ jsonToMonty v' = .ok o) ∧
    ∀ v x, Inside x v → x.Malformed → ∃ e, jsonToMonty v = .error e := by
  have hdecodes : ∀ o v, Encodes o v → jsonToMonty v = .ok o :=
    fun o v h => h.decodes hdisplay hbase64
  refine ⟨fun o ho => ⟨ho.exists_encodes, hdecodes o⟩, ?_, ?_⟩
  · intro v o h
    have hnatural := natural_of_decodes h
    obtain ⟨v', hv'⟩ := hnatural.exists_encodes
    exact ⟨hnatural, v', hv', hdecodes o v' hv'⟩
  · intro v x hx hbad
    cases hv : jsonToMonty v with
    | error e => exact ⟨e, rfl⟩
    | ok o =>
      obtain ⟨o', ho'⟩ := hx.decodes hv
      exact absurd hbad (not_malformed_of_decodes ho')

namespace Sample

omit [Crates]

/-- The JSON integer. -/
def integer (i : Int64) : Value := .number (.fromI64 i)

/-- `{(1, b"\x07\x08"): {"a"}}`. -/
def nested : MontyObject :=
  .Dict [(.Tuple [.Int 1, .Bytes [7, 8]], .Set [.String "a"])]

/-- `{"$dict": [[{"$tuple": [1, {"$bytes": [7, 8]}]}, {"$set": ["a"]}]]}`. -/
def nestedValue : Value :=
  .object [("$dict", .array [.array
    [.object [("$tuple", .array [integer 1, .object [("$bytes", .array
        [.number (.posInt 7), .number (.posInt 8)])]])],
      .object [("$set", .array [.string "a"])]]])]

theorem nested_encodes [Crates] : Encodes nested nestedValue := by
  have hinner : Encodes (.Tuple [.Int 1, .Bytes [7, 8]])
      (.object [("$tuple", .array [integer 1, .object [("$bytes", .array
        [.number (.posInt 7), .number (.posInt 8)])]])]) := by
    refine .tagged .tuple [(.Int 1, integer 1), (.Bytes [7, 8], .object [("$bytes", .array
      [.number (.posInt 7), .number (.posInt 8)])])] ?_
    intro r hr
    rcases List.mem_pair.mp hr with rfl | rfl
    · exact .int 1
    · exact .bytes [7, 8]
  have hset : Encodes (.Set [.String "a"]) (.object [("$set", .array [.string "a"])]) := by
    refine .tagged .set [(.String "a", .string "a")] ?_
    intro r hr
    rw [List.mem_singleton.mp hr]
    exact .string "a"
  refine .dictTag [((_, _), (_, _))] ?_ ?_ ?_
  · rintro ⟨keys, hkeys, -⟩
    cases keys <;> cases hkeys
  · intro r hr
    rw [List.mem_singleton.mp hr]
    exact hinner
  · intro r hr
    rw [List.mem_singleton.mp hr]
    exact hset

theorem nested_natural : Natural nested := by
  refine .dict ?_ ?_
  · intro p hp
    rw [List.mem_singleton.mp hp]
    refine .tagged .tuple ?_
    intro o ho
    rcases List.mem_pair.mp ho with rfl | rfl
    · exact .int 1
    · exact .bytes [7, 8]
  · intro p hp
    rw [List.mem_singleton.mp hp]
    refine .tagged .set ?_
    intro o ho
    rw [List.mem_singleton.mp ho]
    exact .string "a"

/-- `{"$tuple": null}` has the wrong body for its tag. -/
theorem tuple_malformed [Crates] : (Value.object [("$tuple", .null)]).Malformed := by
  refine ⟨"$tuple", .null, rfl, by decide, ?_⟩
  intro h
  generalize htag : "$tuple" = tag at h
  generalize hbody : Value.null = body at h
  cases h with
  | ellipsis => exact absurd htag (by decide)
  | _ => cases hbody

end Sample

omit [Crates] in
/-- A dict with a tuple for a key comes back from its natural form and from the value that is found
for it; a malformed tag in a list turns the whole list down. -/
theorem natural_form_round_trip_nested :
    ∃ (_ : Crates), jsonToMonty Sample.nestedValue = .ok Sample.nested ∧
      (∃ v', Encodes Sample.nested v' ∧ jsonToMonty v' = .ok Sample.nested) ∧
      ∃ e, jsonToMonty (.array [Sample.nestedValue, .object [("$tuple", .null)]]) = .error e := by
  let _ := Sample.crates
  have hdisplay : ∀ f : F64, f.isFinite = true → floatText (Crates.displayF64 f) = true := by
    intro f _
    show floatText "0.0" = true
    decide
  obtain ⟨hencodes, haccepted, hrejected⟩ :=
    natural_form_round_trip hdisplay Sample.decodeBytes_encodeBytes
  have hdecodes : jsonToMonty Sample.nestedValue = .ok Sample.nested :=
    (hencodes _ Sample.nested_natural).2 _ Sample.nested_encodes
  have hinside : Inside (.object [("$tuple", .null)])
      (.array [Sample.nestedValue, .object [("$tuple", .null)]]) :=
    .deeper (List.mem_pair.mpr (.inr rfl)) .here
  exact ⟨Sample.crates, hdecodes, (haccepted _ _ hdecodes).2,
    hrejected _ _ hinside Sample.tuple_malformed⟩

end MontyServer
