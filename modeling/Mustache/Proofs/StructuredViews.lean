import Mustache.Proofs.Documents
import Mustache.Proofs.LambdaFree

/-!
# Views as structured data

Documents are written by what is known of them only: numbers are kept exactly, nothing
stands in place of an infinity or a NaN, and an object keeps each key once.  A value
without lambdas comes through any writer of such documents unchanged but for infinities
and NaNs; a value with a lambda does not come through.

Main results:

- Theorem `Datum.writesValues_toDocument`: what is known of the documents of values.
- Theorem `Value.KeysInOrder.comesThrough`: what becomes of a value.
- Theorem `Session.render_structured`: what is rendered for a view that is converted.
-/

namespace Mustache

open Number

/-! ## Writers -/

section Writers

variable {α β γ : Type} {cause : ConversionFault} {xs : List α}

/-- Where one item fails and no other fails in another way, all fail like this. -/
theorem mapM_eq_error {f : α → Except ConversionFault β}
    (h : ∀ x ∈ xs, f x = .error cause ∨ ∃ y, f x = .ok y) (hfails : ∃ x ∈ xs, f x = .error cause) :
    xs.mapM f = .error cause := by
  induction xs with
  | nil =>
    obtain ⟨x, hx, -⟩ := hfails
    exact absurd hx List.not_mem_nil
  | cons x xs ih =>
    rw [List.mapM_cons]
    rcases h x List.mem_cons_self with hx | ⟨y, hy⟩
    · rw [hx]
      rfl
    · have hrest : ∃ x ∈ xs, f x = .error cause := by
        obtain ⟨u, hu, hfail⟩ := hfails
        rcases List.mem_cons.1 hu with rfl | hu
        · rw [hy] at hfail
          cases hfail
        · exact ⟨u, hu, hfail⟩
      rw [hy, ih (fun u hu => h u (List.mem_cons_of_mem _ hu)) hrest]
      rfl

/-- Where no item fails, all succeed, each with its own result. -/
theorem exists_mapM_eq_ok {f : α → Except ConversionFault β} {read : β → γ} {result : α → γ}
    (h : ∀ x ∈ xs, ∃ y, f x = .ok y ∧ read y = result x) :
    ∃ ys, xs.mapM f = .ok ys ∧ ys.map read = xs.map result := by
  induction xs with
  | nil => exact ⟨[], rfl, rfl⟩
  | cons x xs ih =>
    obtain ⟨y, hy, hread⟩ := h x List.mem_cons_self
    obtain ⟨ys, hys, hreads⟩ := ih fun u hu => h u (List.mem_cons_of_mem _ hu)
    refine ⟨y :: ys, ?_, ?_⟩
    · rw [List.mapM_cons, hy, hys]
      rfl
    · rw [List.map_cons, List.map_cons, hread, hreads]

/-- What each item and its result have in common, all have in common. -/
theorem map_of_mapM_eq_ok {f : α → Except ConversionFault β} {read : β → γ} {result : α → γ}
    {ys : List β} (h : xs.mapM f = .ok ys) (heach : ∀ x y, f x = .ok y → read y = result x) :
    ys.map read = xs.map result := by
  induction xs generalizing ys with
  | nil =>
    cases h
    rfl
  | cons x xs ih =>
    rw [List.mapM_cons] at h
    cases hx : f x with
    | error cause =>
      rw [hx] at h
      cases h
    | ok y =>
      cases hxs : xs.mapM f with
      | error cause =>
        rw [hx, hxs] at h
        cases h
      | ok rest =>
        rw [hx, hxs] at h
        cases h
        rw [List.map_cons, List.map_cons, heach x y hx, ih hxs]

end Writers

namespace Datum

/-- The datum of a map whose keys are texts. -/
def ofTexts (entries : List (String × Datum)) : Datum :=
  map (entries.map fun e => (text e.1, e.2))

/-- What is known of a writer that writes the data of values as documents.  Numbers are kept
exactly, but there is nothing in place of an infinity or a NaN.  An object keeps each key once, in
whatever order. -/
structure WritesValues (write : Datum → Except ConversionFault Document) : Prop where
  nothing : write nothing = .ok .null
  bool (b : Bool) : write (bool b) = .ok (.bool b)
  natural (n : UInt64) : write (integer n.toNat) = .ok (.number (.natural n))
  negative (n : Int64) (h : n.toInt < 0) : write (integer n.toInt) = .ok (.number (.negative n))
  finite (x : Binary64) (h : x.isFinite = true) : write (float64 x) = .ok (.number (.float x))
  notFinite (x : Binary64) (h : x.isFinite = false) : write (float64 x) = .ok .null
  text (s : String) : write (text s) = .ok (.text s)
  list (items : List Datum) : write (sequence items) = (items.mapM write).map .list
  object (entries : List (String × Datum)) (documents : List (String × Document))
    (keys : (entries.map Prod.fst).Nodup)
    (h : entries.mapM (fun e => (write e.2).map fun doc => (e.1, doc)) = .ok documents) :
    ∃ kept, kept.Perm documents ∧ write (ofTexts entries) = .ok (.object kept)
  /-- Writing ends with the first failure. -/
  failure (entries : List (String × Datum)) (cause : ConversionFault)
    (h : entries.mapM (fun e => (write e.2).map fun doc => (e.1, doc)) = .error cause) :
    write (ofTexts entries) = .error cause
  lambda : write lambda = .error .lambda

theorem itemsToDocuments_eq_mapM (items : List Datum) :
    itemsToDocuments items = items.mapM toDocument := by
  induction items with
  | nil => rfl
  | cons d ds ih =>
    rw [itemsToDocuments, ih, List.mapM_cons]
    rfl

theorem toDocument_ofTexts (entries : List (String × Datum)) :
    (ofTexts entries).toDocument =
      (entries.mapM fun e => (toDocument e.2).map fun doc => (e.1, doc)).map .ofEntries := by
  rw [ofTexts, toDocument]
  congr 1
  induction entries with
  | nil => rfl
  | cons entry rest ih =>
    rw [List.map_cons, pairsToDocuments, ih, List.mapM_cons, toKey]
    cases toDocument entry.2 <;> rfl

/-- All this is so for the documents that data is written as. -/
theorem writesValues_toDocument : WritesValues toDocument where
  nothing := rfl
  bool _ := rfl
  natural n := by
    have hfits : (n.toNat : Int).toNat < UInt64.size := n.toNat_lt
    rw [toDocument, Document.ofInt, if_pos (Int.natCast_nonneg _), if_pos hfits,
      Int.toNat_natCast, UInt64.ofNat_toNat]
  negative n h := by
    rw [toDocument, Document.ofInt, if_neg (Int.not_le.2 h), if_pos n.minValue_le_toInt,
      Int64.ofInt_toInt]
  finite x h := by rw [toDocument, Document.ofFloat, if_pos h]
  notFinite x h := by rw [toDocument, Document.ofFloat, if_neg (by simp [h])]
  text _ := rfl
  list items := by rw [toDocument, itemsToDocuments_eq_mapM]
  object entries documents keys h := by
    have hkeys : documents.map Prod.fst = entries.map Prod.fst := by
      refine map_of_mapM_eq_ok h ?_
      intro e d hd
      cases hdoc : toDocument e.2 with
      | error cause =>
        rw [hdoc] at hd
        cases hd
      | ok doc =>
        rw [hdoc] at hd
        cases hd
        rfl
    refine ⟨_, Dictionary.ofList_perm (hkeys ▸ keys), ?_⟩
    rw [toDocument_ofTexts, h]
    rfl
  failure entries cause h := by
    rw [toDocument_ofTexts, h]
    rfl
  lambda := rfl

end Datum

/-! ## Values by way of documents -/

namespace Value

/-- The keys of every map in the value stand in order, and none stands there twice. -/
inductive KeysInOrder : Value → Prop
  | null : KeysInOrder .null
  | bool (b : Bool) : KeysInOrder (.bool b)
  | integer (n : Int64) : KeysInOrder (.integer n)
  | float (x : Binary64) : KeysInOrder (.float x)
  | text (s : String) : KeysInOrder (.text s)
  | list {items : List Value} (h : ∀ v ∈ items, KeysInOrder v) : KeysInOrder (.list items)
  | map {entries : List (String × Value)} (keys : Dictionary.InOrder entries)
    (h : ∀ e ∈ entries, KeysInOrder e.2) : KeysInOrder (.map entries)
  | lambda (l : Lambda) : KeysInOrder (.lambda l)

mutual

/-- The value with nothing in place of the infinities and the NaNs in it. -/
def finite : Value → Value
  | null => null
  | bool b => bool b
  | integer n => integer n
  | float x => if x.isFinite then float x else null
  | text s => text s
  | list items => list (finiteItems items)
  | map entries => map (finiteEntries entries)
  | lambda l => lambda l

/-- The items with nothing in place of the infinities and the NaNs in them. -/
def finiteItems : List Value → List Value
  | [] => []
  | v :: vs => finite v :: finiteItems vs

/-- The entries, under the same keys, with nothing in place of the infinities and the NaNs in
them. -/
def finiteEntries : List (String × Value) → List (String × Value)
  | [] => []
  | (key, v) :: rest => (key, finite v) :: finiteEntries rest

end

theorem finiteItems_eq_map (items : List Value) : finiteItems items = items.map finite := by
  induction items with
  | nil => rfl
  | cons v vs ih => rw [finiteItems, ih, List.map_cons]

theorem finiteEntries_eq_mapValues (entries : List (String × Value)) :
    finiteEntries entries = Dictionary.mapValues finite entries := by
  induction entries with
  | nil => rfl
  | cons entry rest ih =>
    obtain ⟨key, v⟩ := entry
    rw [finiteEntries, ih]
    rfl

/-- Where nothing stands in place of a float, nothing more has to be replaced. -/
theorem finite_float_finite (x : Binary64) : (finite (.float x)).finite = finite (.float x) := by
  rw [finite]
  split
  · rename_i hfinite
    rw [finite, if_pos hfinite]
  · rfl

mutual

/-- In a finite value, nothing is replaced. -/
theorem finite_finite : ∀ v : Value, v.finite.finite = v.finite
  | null | bool _ | integer _ | text _ | lambda _ => rfl
  | float x => finite_float_finite x
  | list items => congrArg list (finiteItems_finiteItems items)
  | map entries => congrArg map (finiteEntries_finiteEntries entries)

theorem finiteItems_finiteItems : ∀ items : List Value,
    finiteItems (finiteItems items) = finiteItems items
  | [] => rfl
  | v :: vs => by rw [finiteItems, finiteItems, finite_finite v, finiteItems_finiteItems vs]

theorem finiteEntries_finiteEntries : ∀ entries : List (String × Value),
    finiteEntries (finiteEntries entries) = finiteEntries entries
  | [] => rfl
  | (key, v) :: rest => by
    rw [finiteEntries, finiteEntries, finite_finite v, finiteEntries_finiteEntries rest]

end

variable {v : Value}

/-- No lambda comes in when floats are replaced. -/
theorem LambdaFree.finite (h : v.LambdaFree) : v.finite.LambdaFree := by
  induction h with
  | null => exact .null
  | bool b => exact .bool b
  | integer n => exact .integer n
  | float x =>
    rw [Value.finite]
    split
    · exact .float x
    · exact .null
  | text s => exact .text s
  | list _ ih =>
    rw [Value.finite, finiteItems_eq_map]
    exact .list (List.forall_mem_map.2 ih)
  | map _ ih =>
    rw [Value.finite, finiteEntries_eq_mapValues]
    exact .map (List.forall_mem_map.2 ih)

/-- Keys stay in order when floats are replaced. -/
theorem KeysInOrder.finite (h : v.KeysInOrder) : v.finite.KeysInOrder := by
  induction h with
  | null => exact .null
  | bool b => exact .bool b
  | integer n => exact .integer n
  | float x =>
    rw [Value.finite]
    split
    · exact .float x
    · exact .null
  | text s => exact .text s
  | list _ ih =>
    rw [Value.finite, finiteItems_eq_map]
    exact .list (List.forall_mem_map.2 ih)
  | map keys _ ih =>
    rw [Value.finite, finiteEntries_eq_mapValues]
    exact .map (keys.mapValues _) (List.forall_mem_map.2 ih)
  | lambda l => exact .lambda l

/-! ### What becomes of a value -/

theorem itemsToData_eq_map (items : List Value) : itemsToData items = items.map toDatum := by
  induction items with
  | nil => rfl
  | cons v vs ih => rw [itemsToData, ih, List.map_cons]

theorem toDatum_map (entries : List (String × Value)) :
    (map entries).toDatum = .ofTexts (entries.map fun e => (e.1, e.2.toDatum)) := by
  rw [toDatum, Datum.ofTexts]
  congr 1
  induction entries with
  | nil => rfl
  | cons entry rest ih =>
    rw [entriesToPairs, ih]
    rfl

/-- If a lambda stands in the value, it is not written.  Otherwise it is written as a document, and
read as it was but for infinities and NaNs. -/
structure ComesThrough (write : Datum → Except ConversionFault Document) (v : Value) : Prop where
  failure : ¬ v.LambdaFree → write v.toDatum = .error .lambda
  success : v.LambdaFree → ∃ doc, write v.toDatum = .ok doc ∧ doc.toValue = v.finite

variable {write : Datum → Except ConversionFault Document}

/-- A value is written, unless a lambda is found in it. -/
theorem ComesThrough.fails_or_succeeds (h : v.ComesThrough write) :
    write v.toDatum = .error .lambda ∨ ∃ doc, write v.toDatum = .ok doc := by
  by_cases hfree : v.LambdaFree
  · exact .inr ((h.success hfree).imp fun _ hdoc => hdoc.1)
  · exact .inl (h.failure hfree)

/-- An integer of 64 bits with a sign is written, and read as it was. -/
theorem comesThrough_integer (hwrite : Datum.WritesValues write) (n : Int64) :
    (integer n).ComesThrough write := by
  refine ⟨fun h => absurd (.integer n) h, fun _ => ?_⟩
  by_cases hnegative : n.toInt < 0
  · exact ⟨_, hwrite.negative n hnegative, rfl⟩
  · have hnonneg : 0 ≤ n.toInt := Int.not_lt.1 hnegative
    have hmax : Int64.maxValue.toInt = 2 ^ 63 - 1 := by decide
    have hfits : n.toInt.toNat < UInt64.size := by
      have hle := n.toInt_le
      have hsize : UInt64.size = 2 ^ 64 := rfl
      omega
    have hsame : ((UInt64.ofNat n.toInt.toNat).toNat : Int) = n.toInt := by
      rw [UInt64.toNat_ofNat_of_lt' hfits, Int.toNat_of_nonneg hnonneg]
    have hdoc := hwrite.natural (UInt64.ofNat n.toInt.toNat)
    rw [hsame] at hdoc
    refine ⟨_, hdoc, ?_⟩
    rw [Document.toValue_natural hfits, Int.toNat_of_nonneg hnonneg, if_pos n.toInt_le,
      ← Int64.ofInt_eq_ofNat, Int.toNat_of_nonneg hnonneg, Int64.ofInt_toInt]
    rfl

/-- A list is written item by item. -/
theorem comesThrough_list (hwrite : Datum.WritesValues write) {items : List Value}
    (h : ∀ v ∈ items, v.ComesThrough write) : (list items).ComesThrough write := by
  have hlist : write (list items).toDatum = (items.mapM fun v => write v.toDatum).map .list := by
    rw [toDatum, itemsToData_eq_map, hwrite.list, List.mapM_map]
    rfl
  constructor
  · intro hnot
    obtain ⟨v, hv, hlambda⟩ : ∃ v ∈ items, ¬ v.LambdaFree := by
      simpa [lambdaFree_list_iff] using hnot
    have hfails := mapM_eq_error (fun v hv => (h v hv).fails_or_succeeds)
      ⟨v, hv, (h v hv).failure hlambda⟩
    rw [hlist, hfails]
    rfl
  · intro hfree
    obtain ⟨docs, hdocs, hvalues⟩ := exists_mapM_eq_ok fun v hv =>
      (h v hv).success (lambdaFree_list_iff.1 hfree v hv)
    refine ⟨.list docs, ?_, ?_⟩
    · rw [hlist, hdocs]
      rfl
    · rw [Document.toValue, Document.itemsToValues_eq_map, hvalues, Value.finite,
        finiteItems_eq_map]

/-- A map is written entry by entry, and read with its keys in order. -/
theorem comesThrough_map (hwrite : Datum.WritesValues write) {entries : List (String × Value)}
    (keys : Dictionary.InOrder entries) (h : ∀ e ∈ entries, e.2.ComesThrough write) :
    (map entries).ComesThrough write := by
  have hentries : (entries.map fun e => (e.1, e.2.toDatum)).mapM
      (fun e => (write e.2).map fun doc => (e.1, doc)) =
      entries.mapM fun e => (write e.2.toDatum).map fun doc => (e.1, doc) :=
    List.mapM_map
  have hmap := toDatum_map entries
  constructor
  · intro hnot
    obtain ⟨e, he, hlambda⟩ : ∃ e ∈ entries, ¬ e.2.LambdaFree := by
      simpa [lambdaFree_map_iff] using hnot
    rw [hmap]
    refine hwrite.failure _ _ (hentries.trans (mapM_eq_error ?_ ⟨e, he, ?_⟩))
    · intro e he
      rcases (h e he).fails_or_succeeds with hfails | ⟨doc, hdoc⟩
      · rw [hfails]
        exact .inl rfl
      · rw [hdoc]
        exact .inr ⟨_, rfl⟩
    · rw [(h e he).failure hlambda]
      rfl
  · intro hfree
    have heach : ∀ e ∈ entries, ∃ written, (write e.2.toDatum).map (fun doc => (e.1, doc)) =
        .ok written ∧ (written.1, written.2.toValue) = (e.1, e.2.finite) := by
      intro e he
      obtain ⟨doc, hdoc, hvalue⟩ := (h e he).success (lambdaFree_map_iff.1 hfree e he)
      rw [hdoc]
      exact ⟨_, rfl, by rw [hvalue]⟩
    obtain ⟨docs, hdocs, hvalues⟩ := exists_mapM_eq_ok heach
    have hnodup : ((entries.map fun e => (e.1, e.2.toDatum)).map Prod.fst).Nodup := by
      rw [List.map_map]
      exact keys.nodup
    obtain ⟨kept, hkept, hwritten⟩ := hwrite.object _ docs hnodup (hentries.trans hdocs)
    refine ⟨.object kept, hmap ▸ hwritten, ?_⟩
    -- In whatever order the entries are kept, they are read in the order of the keys.
    have hread : (Dictionary.mapValues Document.toValue kept).Perm
        (Dictionary.mapValues finite entries) := by
      have hall := hkept.map fun e => (e.1, e.2.toValue)
      rwa [hvalues] at hall
    rw [Document.toValue, Document.entriesToValues_eq_mapValues, ofEntries,
      Dictionary.ofList_of_perm hread (keys.mapValues finite), Value.finite,
      finiteEntries_eq_mapValues]

/-- Any value whose keys are in order comes through any writer. -/
theorem KeysInOrder.comesThrough (h : v.KeysInOrder) (hwrite : Datum.WritesValues write) :
    v.ComesThrough write := by
  induction h with
  | null => exact ⟨fun h => absurd .null h, fun _ => ⟨_, hwrite.nothing, rfl⟩⟩
  | bool b => exact ⟨fun h => absurd (.bool b) h, fun _ => ⟨_, hwrite.bool b, rfl⟩⟩
  | integer n => exact comesThrough_integer hwrite n
  | float x =>
    refine ⟨fun h => absurd (.float x) h, fun _ => ?_⟩
    rw [Value.finite]
    cases hx : x.isFinite with
    | true => exact ⟨_, hwrite.finite x hx, rfl⟩
    | false => exact ⟨_, hwrite.notFinite x hx, rfl⟩
  | text s => exact ⟨fun h => absurd (.text s) h, fun _ => ⟨_, hwrite.text s, rfl⟩⟩
  | list _ ih => exact comesThrough_list hwrite ih
  | map keys _ ih => exact comesThrough_map hwrite keys ih
  | lambda l => exact ⟨fun _ => hwrite.lambda, nofun⟩

/-! ### Conversion -/

/-- A value without lambdas is converted to itself but for infinities and NaNs. -/
theorem converted_of_lambdaFree (hfree : v.LambdaFree) (hkeys : v.KeysInOrder) :
    v.converted = .ok v.finite := by
  obtain ⟨doc, hdoc, hvalue⟩ := (hkeys.comesThrough Datum.writesValues_toDocument).success hfree
  rw [converted, Datum.toValue_eq_map_toDocument, hdoc, ← hvalue]
  rfl

/-- A value with a lambda is not converted. -/
theorem converted_of_not_lambdaFree (h : ¬ v.LambdaFree) (hkeys : v.KeysInOrder) :
    v.converted = .error .lambda := by
  rw [converted, Datum.toValue_eq_map_toDocument,
    (hkeys.comesThrough Datum.writesValues_toDocument).failure h]
  rfl

/-- A value is converted by way of a document, whatever writes the document. -/
theorem converted_eq_map_write (hkeys : v.KeysInOrder) (hwrite : Datum.WritesValues write) :
    v.converted = (write v.toDatum).map Document.toValue := by
  by_cases hfree : v.LambdaFree
  · obtain ⟨doc, hdoc, hvalue⟩ := (hkeys.comesThrough hwrite).success hfree
    rw [converted_of_lambdaFree hfree hkeys, hdoc, ← hvalue]
    rfl
  · rw [converted_of_not_lambdaFree hfree hkeys, (hkeys.comesThrough hwrite).failure hfree]
    rfl

end Value

/-- A value is converted by writing a document and reading it, whatever writer is taken of which so
much is known as of documents.  It is not written if a lambda stands in it; otherwise it is read
with nothing in place of infinities and NaNs.  So conversion fails exactly if a lambda stands in the
value, at any depth.  Then whatever is to be rendered, the answer is this failure, and the engine
does nothing.  Otherwise the result is converted to itself, and what is rendered for the value as
structured data is what is rendered for the result. -/
theorem Session.render_structured {σ : Type} (host : Host σ) (s : Session σ) (v : Value)
    (hv : v.KeysInOrder) :
    (∀ write, Datum.WritesValues write →
      v.converted = (write v.toDatum).map Document.toValue ∧
      (¬ v.LambdaFree → write v.toDatum = .error .lambda) ∧
      (v.LambdaFree → ∃ doc, write v.toDatum = .ok doc ∧ doc.toValue = v.finite)) ∧
    Datum.WritesValues Datum.toDocument ∧
    ((∃ cause, v.converted = .error cause) ↔ ¬ v.LambdaFree) ∧
    (¬ v.LambdaFree → v.converted = .error .lambda ∧
      ∀ source, s.answer host (.render source (.structured v)) =
        (⟨.failed (.conversion .lambda), [], []⟩, s)) ∧
    (v.LambdaFree → v.converted = .ok v.finite ∧ v.finite.converted = .ok v.finite ∧
      ∀ source, s.answer host (.render source (.structured v)) =
        s.answer host (.render source (.direct v.finite))) := by
  refine ⟨?_, Datum.writesValues_toDocument,
    ⟨?_, fun h => ⟨_, Value.converted_of_not_lambdaFree h hv⟩⟩, fun h => ?_, fun h => ?_⟩
  · intro write hwrite
    have hthrough := hv.comesThrough hwrite
    exact ⟨Value.converted_eq_map_write hv hwrite, hthrough.failure, hthrough.success⟩
  · rintro ⟨cause, hcause⟩ hfree
    rw [Value.converted_of_lambdaFree hfree hv] at hcause
    cases hcause
  · have hconverted := Value.converted_of_not_lambdaFree h hv
    refine ⟨hconverted, fun source => ?_⟩
    rw [answer, View.value, hconverted]
    rfl
  · have hconverted := Value.converted_of_lambdaFree h hv
    have hagain := Value.converted_of_lambdaFree h.finite hv.finite
    rw [Value.finite_finite] at hagain
    refine ⟨hconverted, hagain, fun source => ?_⟩
    rw [answer, answer, View.value, View.value, hconverted]

/-- A map that holds a NaN, a negative zero and the least integer, and a list with a lambda deep in
it. -/
theorem Session.render_structured_notANumber :
    let host : Host Unit := ⟨fun _ _ u => ("", u)⟩
    let s := Session.start .standard 64 ()
    let notANumber : Binary64 := ⟨0x7FF8000000000000⟩
    let negativeZero : Binary64 := ⟨0x8000000000000000⟩
    let v : Value := .map [("a", .list [.float notANumber, .float negativeZero]),
      ("b", .map [("c", .integer Int64.minValue)])]
    let w : Value := .map [("a", .list [.null, .float negativeZero]),
      ("b", .map [("c", .integer Int64.minValue)])]
    let u : Value := .list [.null, .map [("k", .lambda ⟨0, .block⟩)]]
    (v.KeysInOrder ∧ Datum.WritesValues Datum.toDocument ∧
      v.converted = v.toDatum.toDocument.map Document.toValue ∧
      (∃ doc, v.toDatum.toDocument = .ok doc ∧ doc.toValue = w) ∧
      v.converted = .ok w ∧ w.converted = .ok w ∧
      ∀ source, s.answer host (.render source (.structured v)) =
        s.answer host (.render source (.direct w))) ∧
    u.KeysInOrder ∧ ∀ source, s.answer host (.render source (.structured u)) =
      (⟨.failed (.conversion .lambda), [], []⟩, s) := by
  intro host s notANumber negativeZero v w u
  have hv : v.KeysInOrder := by
    refine .map (by decide) (List.forall_mem_cons.2 ⟨.list ?_, List.forall_mem_singleton.2 ?_⟩)
    · exact List.forall_mem_cons.2 ⟨.float _, List.forall_mem_singleton.2 (.float _)⟩
    · exact .map (by decide) (List.forall_mem_singleton.2 (.integer _))
  have hfree : v.LambdaFree := by
    refine .map (List.forall_mem_cons.2 ⟨.list ?_, List.forall_mem_singleton.2 ?_⟩)
    · exact List.forall_mem_cons.2 ⟨.float _, List.forall_mem_singleton.2 (.float _)⟩
    · exact .map (List.forall_mem_singleton.2 (.integer _))
  have hw : v.finite = w := by
    have hnan : notANumber.isFinite = false := by decide
    have hzero : negativeZero.isFinite = true := by decide
    simp [v, w, Value.finite, Value.finiteItems, Value.finiteEntries, hnan, hzero]
  have hu : u.KeysInOrder :=
    .list (List.forall_mem_cons.2 ⟨.null, List.forall_mem_singleton.2
      (.map (by decide) (List.forall_mem_singleton.2 (.lambda _)))⟩)
  have hnot : ¬ u.LambdaFree := by
    intro h
    have hitems := Value.lambdaFree_list_iff.1 h
    have hmap := hitems _ (List.mem_cons_of_mem _ (List.mem_singleton_self _))
    exact nomatch Value.lambdaFree_map_iff.1 hmap _ (List.mem_singleton_self _)
  obtain ⟨hwriters, hwrite, -, -, hconverted⟩ := render_structured host s v hv
  obtain ⟨hread, -, hwritten⟩ := hwriters _ hwrite
  obtain ⟨hone, hagain, hrender⟩ := hconverted hfree
  obtain ⟨-, -, -, hfailed, -⟩ := render_structured host s u hu
  rw [hw] at hone hagain hrender
  exact ⟨⟨hv, hwrite, hread, hw ▸ hwritten hfree, hone, hagain, hrender⟩, hu, (hfailed hnot).2⟩

end Mustache
