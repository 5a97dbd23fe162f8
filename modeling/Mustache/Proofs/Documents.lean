import Mustache.Datum

/-!
# Data as documents

Data that is given for a view is written as a document first, and the document is read
as a value.  A document has numbers, texts, lists and objects, but no lambdas and no
floats other than finite ones, and it keeps an integer with a sign only if it is
negative.  Conversion, which is one function, comes to the same.

Main results:

- Theorem `Dictionary.ofList_of_perm`: entries are put in order, in whatever order they are given.
- Theorem `Document.map_toValue_ofInt`: an integer that is written and read.
- Theorem `Datum.toValue_eq_map_toDocument`: data is converted by way of a document.
-/

namespace Mustache

open Number

/-! ## Entries in order -/

namespace Dictionary

variable {α β : Type}

/-- The keys stand in order, and none stands there twice. -/
def InOrder (d : Dictionary α) : Prop :=
  d.Pairwise fun e e' => e.1 < e'.1

instance (d : Dictionary α) : Decidable d.InOrder :=
  inferInstanceAs (Decidable (List.Pairwise _ d))

/-- The dictionary with other values under its keys. -/
def mapValues (f : α → β) (d : Dictionary α) : Dictionary β :=
  d.map fun e => (e.1, f e.2)

theorem mem_of_mem_insert {key : String} {value : α} {d : Dictionary α} {e : String × α}
    (h : e ∈ insert key value d) : e = (key, value) ∨ e ∈ d := by
  induction d with
  | nil => exact .inl (List.mem_singleton.1 h)
  | cons first rest ih =>
    rw [insert] at h
    split at h
    · rcases List.mem_cons.1 h with h | h
      · exact .inl h
      · exact .inr (List.mem_cons_of_mem _ h)
    · split at h
      · exact List.mem_cons.1 h
      · rcases List.mem_cons.1 h with rfl | h
        · exact .inr List.mem_cons_self
        · exact (ih h).imp_right (List.mem_cons_of_mem _)

/-- Inserting keeps the order. -/
theorem InOrder.insert {d : Dictionary α} (h : d.InOrder) (key : String) (value : α) :
    (insert key value d).InOrder := by
  induction d with
  | nil => exact List.pairwise_singleton _ _
  | cons first rest ih =>
    obtain ⟨hfirst, hrest⟩ := List.pairwise_cons.1 h
    rw [Dictionary.insert]
    split
    · rename_i hkey
      subst hkey
      exact List.pairwise_cons.2 ⟨hfirst, hrest⟩
    · rename_i hne
      split
      · rename_i hlt
        refine List.pairwise_cons.2 ⟨fun e he => ?_, h⟩
        rcases List.mem_cons.1 he with rfl | he
        · exact hlt
        · exact String.lt_trans hlt (hfirst e he)
      · rename_i hge
        refine List.pairwise_cons.2 ⟨fun e he => ?_, ih hrest⟩
        rcases mem_of_mem_insert he with rfl | he
        · exact Std.lt_of_le_of_ne hge (Ne.symm hne)
        · exact hfirst e he

/-- A dictionary is in order, in whatever order its entries are given. -/
theorem inOrder_ofList (entries : List (String × α)) : (ofList entries).InOrder := by
  have hfrom : ∀ d : Dictionary α, d.InOrder →
      InOrder (entries.foldl (fun d entry => insert entry.1 entry.2 d) d) := by
    induction entries with
    | nil => exact fun _ hd => hd
    | cons entry entries ih => exact fun d hd => ih _ (hd.insert entry.1 entry.2)
  exact hfrom [] .nil

/-- A new key is inserted in some place. -/
theorem insert_perm {key : String} (value : α) {d : Dictionary α} (h : key ∉ d.map Prod.fst) :
    (insert key value d).Perm ((key, value) :: d) := by
  induction d with
  | nil => exact .refl _
  | cons first rest ih =>
    rw [List.map_cons, List.mem_cons, not_or] at h
    rw [insert, if_neg h.1]
    split
    · exact .refl _
    · exact ((ih h.2).cons first).trans (.swap _ _ _)

/-- Entries under different keys are all kept. -/
theorem ofList_perm {entries : List (String × α)} (h : (entries.map Prod.fst).Nodup) :
    (ofList entries).Perm entries := by
  have hfrom : ∀ d : Dictionary α, ((d ++ entries).map Prod.fst).Nodup →
      List.Perm (entries.foldl (fun d entry => insert entry.1 entry.2 d) d) (d ++ entries) := by
    clear h
    induction entries with
    | nil =>
      intro d _
      rw [List.append_nil, List.foldl_nil]
    | cons entry entries ih =>
      intro d hd
      have hfront : (d ++ entry :: entries).Perm (entry :: (d ++ entries)) := List.perm_middle
      have hnodup := (hfront.map Prod.fst).nodup_iff.1 hd
      have hnew : entry.1 ∉ d.map Prod.fst := fun hmem =>
        (List.nodup_cons.1 hnodup).1 (by rw [List.map_append]; exact List.mem_append_left _ hmem)
      have hinsert : (insert entry.1 entry.2 d ++ entries).Perm (entry :: (d ++ entries)) :=
        (insert_perm entry.2 hnew).append_right entries
      rw [List.foldl_cons]
      exact ((ih _ ((hinsert.map Prod.fst).nodup_iff.2 hnodup)).trans hinsert).trans hfront.symm
  exact hfrom [] h

/-- The keys of entries in order are different. -/
theorem InOrder.nodup {d : Dictionary α} (h : d.InOrder) : (d.map Prod.fst).Nodup := by
  refine List.pairwise_map.2 (h.imp ?_)
  intro e e' hlt heq
  exact String.lt_irrefl _ (heq ▸ hlt)

/-- Entries are put in order, in whatever order they are given. -/
theorem ofList_of_perm {entries : List (String × α)} {d : Dictionary α} (h : entries.Perm d)
    (hd : d.InOrder) : ofList entries = d := by
  have hkept := ofList_perm ((h.map Prod.fst).nodup_iff.2 hd.nodup)
  refine (hkept.trans h).eq_of_pairwise ?_ (inOrder_ofList entries) hd
  exact fun _ _ _ _ hlt hgt => absurd hgt (String.lt_asymm hlt)

/-- Entries that are in order are a dictionary as they stand. -/
theorem ofList_of_inOrder {entries : List (String × α)} (h : InOrder entries) :
    ofList entries = entries :=
  ofList_of_perm (.refl _) h

/-- Inserting has nothing to do with what the values are. -/
theorem insert_mapValues (f : α → β) (key : String) (value : α) (d : Dictionary α) :
    insert key (f value) (mapValues f d) = mapValues f (insert key value d) := by
  induction d with
  | nil => rfl
  | cons first rest ih =>
    simp only [mapValues, List.map_cons] at ih ⊢
    rw [insert, insert]
    split
    · rfl
    · split
      · rfl
      · rw [ih]
        rfl

theorem ofList_mapValues (f : α → β) (entries : List (String × α)) :
    ofList (mapValues f entries) = mapValues f (ofList entries) := by
  have hfrom : ∀ d : Dictionary α,
      (mapValues f entries).foldl (fun d entry => insert entry.1 entry.2 d) (mapValues f d) =
        mapValues f (entries.foldl (fun d entry => insert entry.1 entry.2 d) d) := by
    induction entries with
    | nil => exact fun _ => rfl
    | cons entry entries ih =>
      intro d
      rw [List.foldl_cons, ← ih, ← insert_mapValues]
      rfl
  exact hfrom []

/-- Other values under the keys leave the order as it is. -/
theorem InOrder.mapValues {d : Dictionary α} (h : d.InOrder) (f : α → β) :
    (mapValues f d).InOrder :=
  List.pairwise_map.2 h

end Dictionary

/-! ## Documents -/

/-- A number of a document.  An integer takes 64 bits, and has a sign only if it is negative. -/
inductive DocumentNumber where
  | natural (n : UInt64)
  | negative (n : Int64)
  | float (x : Binary64)

/-- A document, which data is written as and values are read from. -/
inductive Document where
  | null
  | bool (b : Bool)
  | number (n : DocumentNumber)
  | text (s : String)
  | list (items : List Document)
  | object (entries : List (String × Document))

/-! ### Writing -/

namespace Document

/-- The document of an integer, which has to fit into 64 bits. -/
def ofInt (n : Int) : Except ConversionFault Document :=
  if 0 ≤ n then
    if n.toNat < UInt64.size then
      .ok (number (.natural (UInt64.ofNat n.toNat)))
    else
      .error .integerOutOfRange
  else if Int64.minValue.toInt ≤ n then
    .ok (number (.negative (Int64.ofInt n)))
  else
    .error .integerOutOfRange

/-- The document of a float.  An infinity and a NaN are no numbers of documents. -/
def ofFloat (x : Binary64) : Document :=
  if x.isFinite then number (.float x) else null

/-- The document of some entries, of which a later one replaces an earlier one. -/
def ofEntries (entries : List (String × Document)) : Document :=
  object (Dictionary.ofList entries)

end Document

namespace Datum

mutual

/-- The document that a datum is written as. -/
def toDocument : Datum → Except ConversionFault Document
  | nothing => .ok .null
  | bool b => .ok (.bool b)
  | integer n => Document.ofInt n
  | float32 x => .ok (.ofFloat x.widen)
  | float64 x => .ok (.ofFloat x)
  | character c => .ok (.text (String.singleton c))
  | text s => .ok (.text s)
  | bytes bs => .ok (.list (bs.map fun b => .number (.natural b.toUInt64)))
  | present d => toDocument d
  | wrapped d => toDocument d
  | sequence items => (itemsToDocuments items).map .list
  | record fields => (fieldsToDocuments fields).map .ofEntries
  | map entries => (pairsToDocuments entries).map .ofEntries
  | variant name => .ok (.text name)
  | variantOf name d => (toDocument d).map fun doc => .object [(name, doc)]
  | variantSequence name items =>
    (itemsToDocuments items).map fun docs => .object [(name, .list docs)]
  | variantRecord name fields =>
    (fieldsToDocuments fields).map fun entries => .object [(name, .ofEntries entries)]
  | lambda => .error .lambda

/-- The documents of a row of data. -/
def itemsToDocuments : List Datum → Except ConversionFault (List Document)
  | [] => .ok []
  | d :: ds => (toDocument d).bind fun doc => (itemsToDocuments ds).map fun docs => doc :: docs

/-- The entries of named fields. -/
def fieldsToDocuments :
    List (String × Datum) → Except ConversionFault (List (String × Document))
  | [] => .ok []
  | (name, d) :: rest =>
    (toDocument d).bind fun doc =>
      (fieldsToDocuments rest).map fun entries => (name, doc) :: entries

/-- The entries of pairs of a key and a value, the key of each pair being written first. -/
def pairsToDocuments :
    List (Datum × Datum) → Except ConversionFault (List (String × Document))
  | [] => .ok []
  | (k, d) :: rest =>
    (toKey k).bind fun key =>
      (toDocument d).bind fun doc =>
        (pairsToDocuments rest).map fun entries => (key, doc) :: entries

end

end Datum

/-! ### Reading -/

/-- The value of a number.  An integer beyond the integers with a sign is read as the nearest
float. -/
def DocumentNumber.toValue : DocumentNumber → Value
  | natural n =>
    if (n.toNat : Int) ≤ Int64.maxValue.toInt then
      .integer (Int64.ofNat n.toNat)
    else
      .float (Binary64.ofNat n.toNat)
  | negative n => .integer n
  | float x => .float x

namespace Document

mutual

/-- The value that a document is read as. -/
def toValue : Document → Value
  | null => .null
  | bool b => .bool b
  | number n => n.toValue
  | text s => .text s
  | list items => .list (itemsToValues items)
  | object entries => .ofEntries (entriesToValues entries)

/-- The values of the items of a list. -/
def itemsToValues : List Document → List Value
  | [] => []
  | doc :: docs => toValue doc :: itemsToValues docs

/-- The entries of an object with the values of their documents. -/
def entriesToValues : List (String × Document) → List (String × Value)
  | [] => []
  | (key, doc) :: rest => (key, toValue doc) :: entriesToValues rest

end

theorem itemsToValues_eq_map (items : List Document) :
    itemsToValues items = items.map toValue := by
  induction items with
  | nil => rfl
  | cons doc docs ih => rw [itemsToValues, ih, List.map_cons]

theorem entriesToValues_eq_mapValues (entries : List (String × Document)) :
    entriesToValues entries = Dictionary.mapValues toValue entries := by
  induction entries with
  | nil => rfl
  | cons entry rest ih =>
    obtain ⟨key, doc⟩ := entry
    rw [entriesToValues, ih]
    rfl

/-- Entries are put in order once, whether they are written or read. -/
theorem toValue_ofEntries (entries : List (String × Document)) :
    (ofEntries entries).toValue = .ofEntries (entriesToValues entries) := by
  have hread : (ofEntries entries).toValue =
      .map (Dictionary.ofList (Dictionary.mapValues toValue (Dictionary.ofList entries))) := by
    rw [ofEntries, toValue, entriesToValues_eq_mapValues]
    rfl
  have horder := (Dictionary.inOrder_ofList entries).mapValues toValue
  rw [hread, Dictionary.ofList_of_inOrder horder, ← Dictionary.ofList_mapValues,
    ← entriesToValues_eq_mapValues]
  rfl

theorem toValue_object_single (name : String) (doc : Document) :
    (object [(name, doc)]).toValue = Datum.single name doc.toValue := by
  simp [toValue, entriesToValues, Value.ofEntries, Dictionary.ofList, Dictionary.insert,
    Datum.single]

/-- A finite float is read as it was, and nothing in place of any other one. -/
theorem toValue_ofFloat (x : Binary64) : (ofFloat x).toValue = Datum.floatToValue x := by
  unfold ofFloat Datum.floatToValue
  split <;> rfl

/-- A number without a sign is an integer as long as it is not beyond the integers with a sign. -/
theorem toValue_natural {n : Nat} (h : n < UInt64.size) :
    (number (.natural (UInt64.ofNat n))).toValue =
      if (n : Int) ≤ Int64.maxValue.toInt then .integer (Int64.ofNat n)
      else .float (Binary64.ofNat n) := by
  rw [toValue, DocumentNumber.toValue, UInt64.toNat_ofNat_of_lt' h]

/-- An integer comes through as itself, or as the nearest float, or not at all. -/
theorem map_toValue_ofInt (n : Int) : (ofInt n).map toValue = Datum.integerToValue n := by
  have hmin : Int64.minValue.toInt = -2 ^ 63 := by decide
  have hmax : Int64.maxValue.toInt = 2 ^ 63 - 1 := by decide
  have hsize : UInt64.size = 2 ^ 64 := rfl
  unfold ofInt Datum.integerToValue
  by_cases hnonneg : 0 ≤ n
  · rw [if_pos hnonneg]
    by_cases hfits : n.toNat < UInt64.size
    · have hread : (number (.natural (UInt64.ofNat n.toNat))).toValue = _ := toValue_natural hfits
      rw [if_pos hfits, Except.map, hread, Int.toNat_of_nonneg hnonneg, ← Int64.ofInt_eq_ofNat,
        Int.toNat_of_nonneg hnonneg]
      by_cases hsigned : n ≤ Int64.maxValue.toInt
      · rw [if_pos hsigned, if_pos ⟨by omega, hsigned⟩]
      · rw [if_neg hsigned, if_neg fun h => hsigned h.2, if_pos ⟨hnonneg, hfits⟩]
    · rw [if_neg hfits, if_neg (by omega), if_neg fun h => hfits h.2]
      rfl
  · rw [if_neg hnonneg]
    by_cases hsigned : Int64.minValue.toInt ≤ n
    · rw [if_pos hsigned, if_pos ⟨hsigned, by omega⟩]
      rfl
    · rw [if_neg hsigned, if_neg fun h => hsigned h.1, if_neg fun h => hnonneg h.1]
      rfl

end Document

/-! ### Converting data -/

/-- A byte is read as the number that it is. -/
theorem Document.toValue_byte (b : UInt8) :
    (number (.natural b.toUInt64)).toValue = .integer (Int64.ofNat b.toNat) := by
  have hmax : Int64.maxValue.toInt = 2 ^ 63 - 1 := by decide
  have hbyte : b.toNat < 2 ^ 8 := b.toNat_lt
  rw [toValue, DocumentNumber.toValue, UInt8.toNat_toUInt64, if_pos (by omega)]

namespace Datum

open Document (entriesToValues)

mutual

/-- Data is converted by way of a document. -/
theorem toValue_eq_map_toDocument : ∀ d : Datum, d.toValue = d.toDocument.map Document.toValue
  | nothing | bool _ | character _ | text _ | variant _ | lambda => rfl
  | integer n => (Document.map_toValue_ofInt n).symm
  | float32 x => congrArg Except.ok (Document.toValue_ofFloat x.widen).symm
  | float64 x => congrArg Except.ok (Document.toValue_ofFloat x).symm
  | bytes bs => by
    refine congrArg Except.ok (congrArg Value.list ?_)
    rw [Document.itemsToValues_eq_map, List.map_map]
    exact List.map_congr_left fun b _ => (Document.toValue_byte b).symm
  | present d => toValue_eq_map_toDocument d
  | wrapped d => toValue_eq_map_toDocument d
  | sequence items => by
    rw [toValue, toDocument, itemsToValues_eq_map_itemsToDocuments items]
    cases itemsToDocuments items <;> rfl
  | record fields => by
    rw [toValue, toDocument, fieldsToEntries_eq_map_fieldsToDocuments fields]
    cases fieldsToDocuments fields with
    | error cause => rfl
    | ok entries => exact congrArg Except.ok (Document.toValue_ofEntries entries).symm
  | map entries => by
    rw [toValue, toDocument, pairsToEntries_eq_map_pairsToDocuments entries]
    cases pairsToDocuments entries with
    | error cause => rfl
    | ok entries => exact congrArg Except.ok (Document.toValue_ofEntries entries).symm
  | variantOf name d => by
    rw [toValue, toDocument, toValue_eq_map_toDocument d]
    cases toDocument d with
    | error cause => rfl
    | ok doc => exact congrArg Except.ok (Document.toValue_object_single name doc).symm
  | variantSequence name items => by
    rw [toValue, toDocument, itemsToValues_eq_map_itemsToDocuments items]
    cases itemsToDocuments items with
    | error cause => rfl
    | ok docs => exact congrArg Except.ok (Document.toValue_object_single name (.list docs)).symm
  | variantRecord name fields => by
    rw [toValue, toDocument, fieldsToEntries_eq_map_fieldsToDocuments fields]
    cases fieldsToDocuments fields with
    | error cause => rfl
    | ok entries =>
      show Except.ok (single name (.ofEntries (entriesToValues entries))) = .ok _
      rw [← Document.toValue_ofEntries, ← Document.toValue_object_single]

theorem itemsToValues_eq_map_itemsToDocuments : ∀ items : List Datum,
    itemsToValues items = (itemsToDocuments items).map Document.itemsToValues
  | [] => rfl
  | d :: ds => by
    rw [itemsToValues, itemsToDocuments, toValue_eq_map_toDocument d,
      itemsToValues_eq_map_itemsToDocuments ds]
    cases toDocument d with
    | error cause => rfl
    | ok doc => cases itemsToDocuments ds <;> rfl

theorem fieldsToEntries_eq_map_fieldsToDocuments : ∀ fields : List (String × Datum),
    fieldsToEntries fields = (fieldsToDocuments fields).map entriesToValues
  | [] => rfl
  | (name, d) :: rest => by
    rw [fieldsToEntries, fieldsToDocuments, toValue_eq_map_toDocument d,
      fieldsToEntries_eq_map_fieldsToDocuments rest]
    cases toDocument d with
    | error cause => rfl
    | ok doc => cases fieldsToDocuments rest <;> rfl

theorem pairsToEntries_eq_map_pairsToDocuments : ∀ entries : List (Datum × Datum),
    pairsToEntries entries = (pairsToDocuments entries).map entriesToValues
  | [] => rfl
  | (k, d) :: rest => by
    rw [pairsToEntries, pairsToDocuments, toValue_eq_map_toDocument d,
      pairsToEntries_eq_map_pairsToDocuments rest]
    cases toKey k with
    | error cause => rfl
    | ok key =>
      cases toDocument d with
      | error cause => rfl
      | ok doc => cases pairsToDocuments rest <;> rfl

end

end Datum

end Mustache
