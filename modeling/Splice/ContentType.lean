import Splice.DocRoot
import Splice.Lib.LastSegment
import Mathlib.Data.List.Find

/-!
# Splice.ContentType

Whether the type that `handle_request` sends belongs to the file that it sends.  The
extension is searched in the path as a `std::string`, and the file is opened by the name
that `c_str()` leaves of it; a zero byte in the URI parts the two.
-/

namespace Splice

open LastSegment

namespace HttpServer

/-- The extension of a file name. -/
def fileExtension (name : List UInt8) : List UInt8 :=
  extension '/'.toUInt8 '.'.toUInt8 name

/-- The extension from which the type is chosen. -/
def chosenExtension (uri : List UInt8) : Option (List UInt8) :=
  (servedPath uri).map extensionOf

/-- It is that of the name that is opened. -/
def TypeOfFile (site : Site) (req : Request) : Prop :=
  chosenExtension req.uri = (openName site.docRoot req.uri).map fileExtension

instance (site : Site) (req : Request) : Decidable (TypeOfFile site req) :=
  inferInstanceAs (Decidable (_ = _))

/-- There is no zero byte in a path, or what stands behind the first one does not change the
extension: its own is the same, or it has none and neither has the name before it. -/
def KeepsExtension (fullPath : List UInt8) : Prop :=
  0 ∉ fullPath ∨ ∃ name rest, fullPath = name ++ 0 :: rest ∧ 0 ∉ name ∧
    if '/'.toUInt8 ∈ rest ∨ '.'.toUInt8 ∈ rest then fileExtension rest = fileExtension name
    else '.'.toUInt8 ∉ lastSegment '/'.toUInt8 name

/-! ## The backward searches -/

/-- The last character of a text is looked at first. -/
theorem findLastOf_snoc (c : Char) (text : List UInt8) (b : UInt8) :
    findLastOf c (text ++ [b]) = if b = c.toUInt8 then some text.length else findLastOf c text := by
  have hrange : (List.range (text ++ [b]).length).reverse =
      text.length :: (List.range text.length).reverse := by
    simp [List.range_succ]
  have hbefore : ∀ i ∈ (List.range text.length).reverse,
      decide ((text ++ [b])[i]? = some c.toUInt8) = decide (text[i]? = some c.toUInt8) := by
    intro i hi
    rw [List.getElem?_append_left (by simpa using hi)]
  rw [findLastOf, hrange, List.find?_cons]
  by_cases hb : b = c.toUInt8
  · simp [hb]
  · simp [hb, findLastOf, List.find?_congr hbefore]

/-- A character that is not there is not found. -/
theorem findLastOf_of_notMem {c : Char} {text : List UInt8} (h : c.toUInt8 ∉ text) :
    findLastOf c text = none := by
  induction text using List.reverseRecOn with
  | nil => rfl
  | append_singleton text b ih =>
      obtain ⟨htext, hb⟩ := not_or.mp (List.mem_append.not.mp h)
      rw [findLastOf_snoc, if_neg fun heq => hb (by simp [heq]), ih htext]

/-- A character is found in front of the part that is without it. -/
theorem findLastOf_append {c : Char} (before : List UInt8) {after : List UInt8}
    (h : c.toUInt8 ∉ after) :
    findLastOf c (before ++ c.toUInt8 :: after) = some before.length := by
  induction after using List.reverseRecOn with
  | nil => rw [findLastOf_snoc, if_pos rfl]
  | append_singleton after b ih =>
      obtain ⟨hafter, hb⟩ := not_or.mp (List.mem_append.not.mp h)
      rw [← List.cons_append, ← List.append_assoc, findLastOf_snoc,
        if_neg fun heq => hb (by simp [heq]), ih hafter]

/-- The two searches find the extension of a path. -/
theorem extensionOf_eq {path : List UInt8} (h : '/'.toUInt8 ∈ path) :
    extensionOf path = fileExtension path := by
  obtain ⟨before, hpath⟩ := exists_append_lastSegment h
  have hseg := notMem_lastSegment '/'.toUInt8 path
  unfold fileExtension extension
  generalize lastSegment '/'.toUInt8 path = seg at hpath hseg
  subst hpath
  have hslash := findLastOf_append before hseg
  by_cases hdot : '.'.toUInt8 ∈ seg
  · obtain ⟨name, hname⟩ := exists_append_lastSegment hdot
    have hext := notMem_lastSegment '.'.toUInt8 seg
    rw [if_pos hdot]
    generalize lastSegment '.'.toUInt8 seg = ext at hname hext
    subst hname
    rw [← List.cons_append, ← List.append_assoc] at hslash ⊢
    have hlast := findLastOf_append (before ++ '/'.toUInt8 :: name) hext
    have hlt : before.length < (before ++ '/'.toUInt8 :: name).length := by simp
    simp only [extensionOf, hslash, hlast, hlt, if_true]
    have hlen : (before ++ '/'.toUInt8 :: name ++ ['.'.toUInt8]).length =
        (before ++ '/'.toUInt8 :: name).length + 1 := List.length_append
    rw [List.append_cons _ '.'.toUInt8]
    exact List.drop_left' hlen
  · rw [if_neg hdot]
    by_cases hbefore : '.'.toUInt8 ∈ before
    · -- the last dot is in a directory
      obtain ⟨dir, hdir⟩ := exists_append_lastSegment hbefore
      have hrest := notMem_lastSegment '.'.toUInt8 before
      generalize lastSegment '.'.toUInt8 before = rest at hdir hrest
      subst hdir
      have hafter : '.'.toUInt8 ∉ rest ++ '/'.toUInt8 :: seg := by
        simp [hrest, hdot, (by decide : '.'.toUInt8 ≠ '/'.toUInt8)]
      have hlast := findLastOf_append dir hafter
      rw [List.append_assoc, List.cons_append] at hslash ⊢
      have hle : ¬ (dir ++ '.'.toUInt8 :: rest).length < dir.length := by simp
      simp only [extensionOf, hslash, hlast, hle, if_false]
    · have hnone : findLastOf '.' (before ++ '/'.toUInt8 :: seg) = none :=
        findLastOf_of_notMem (by simp [hbefore, hdot, (by decide : '.'.toUInt8 ≠ '/'.toUInt8)])
      simp only [extensionOf, hnone]

/-! ## What `c_str()` cuts off -/

theorem cString_of_notMem {text : List UInt8} (h : 0 ∉ text) : cString text = text :=
  List.takeWhile_eq_self_iff.mpr fun b hb => by simpa using ne_of_mem_of_not_mem hb h

/-- A null character ends a C string. -/
theorem cString_append_zero {name : List UInt8} (h : 0 ∉ name) (rest : List UInt8) :
    cString (name ++ 0 :: rest) = name := by
  have hkeep : ∀ b ∈ name, decide (b ≠ 0) = true := fun b hb => by
    simpa using ne_of_mem_of_not_mem hb h
  rw [cString, List.takeWhile_append_of_pos hkeep]
  simp

/-- The extension of a path with a zero byte is that of the name before it where the bytes
behind bring the same, or where there is none. -/
theorem fileExtension_append_zero_iff {name rest : List UInt8} :
    fileExtension (name ++ 0 :: rest) = fileExtension name ↔
      if '/'.toUInt8 ∈ rest ∨ '.'.toUInt8 ∈ rest then fileExtension rest = fileExtension name
      else '.'.toUInt8 ∉ lastSegment '/'.toUInt8 name := by
  split
  · next hrest =>
      have hbehind : fileExtension (name ++ 0 :: rest) = fileExtension rest := by
        rw [fileExtension, List.append_cons, extension_append_of_mem _ hrest, fileExtension]
      rw [hbehind]
  · next hrest =>
      obtain ⟨hslash, hdot⟩ := not_or.mp hrest
      have hzero : '/'.toUInt8 ≠ 0 ∧ '.'.toUInt8 ≠ 0 := by decide
      have hbehind : fileExtension (name ++ 0 :: rest) =
          if '.'.toUInt8 ∈ lastSegment '/'.toUInt8 name then fileExtension name ++ 0 :: rest
          else [] :=
        extension_append_of_notMem name (by simp [hslash, hzero.1]) (by simp [hdot, hzero.2])
      rw [hbehind]
      split
      · next hext => simp [hext]
      · next hext => simp [hext, fileExtension, extension]

/-- The type fits exactly if the null character takes no extension with it. -/
theorem keepsExtension_iff (fullPath : List UInt8) :
    KeepsExtension fullPath ↔ fileExtension fullPath = fileExtension (cString fullPath) := by
  by_cases h : 0 ∈ fullPath
  · obtain ⟨name, rest, rfl, hname⟩ := List.eq_append_cons_of_mem h
    rw [cString_append_zero hname, fileExtension_append_zero_iff, KeepsExtension]
    constructor
    · rintro (hzero | ⟨name', rest', heq, hname', hcond⟩)
      · exact absurd h hzero
      · -- there is only one first zero byte
        obtain rfl : name = name' := by
          rw [← cString_append_zero hname rest, heq, cString_append_zero hname']
        obtain ⟨-, rfl⟩ := List.cons.inj (List.append_cancel_left heq)
        exact hcond
    · exact fun hcond => .inr ⟨name, rest, rfl, hname, hcond⟩
  · simp [KeepsExtension, h, cString_of_notMem h]

/-! ## Replies -/

/-- A path that is served has a slash in it. -/
theorem slash_mem_of_servedPath {uri path : List UInt8} (h : servedPath uri = some path) :
    '/'.toUInt8 ∈ path := by
  obtain ⟨decoded, -, hslash, -, rfl⟩ := servedPath_eq_some h
  have hmem : '/'.toUInt8 ∈ decoded := List.mem_of_mem_head? hslash
  unfold withIndex
  split
  · exact List.mem_append_left _ hmem
  · exact hmem

/-- **The content type**: a reply of 200 holds what is in the file that is opened, with the
type of the extension chosen; and that is the extension of the file exactly if no zero byte
in the path changes it. -/
theorem typeOfFile_iff (site : Site) (req : Request) (hok : (handleRequest site req).status = .ok) :
    (∃ ext name content, chosenExtension req.uri = some ext ∧
      openName site.docRoot req.uri = some name ∧ site.openFile name = some content ∧
      handleRequest site req =
        ⟨.ok, Reply.contentHeaders content (extensionToType ext), content⟩) ∧
    (TypeOfFile site req ↔
      ∀ path ∈ servedPath req.uri, KeepsExtension (site.docRoot ++ path)) := by
  rw [handleRequest_eq] at hok ⊢
  unfold TypeOfFile chosenExtension openName
  cases hpath : servedPath req.uri with
  | none => simp [hpath, Reply.stockReply] at hok
  | some path =>
      have hslash := slash_mem_of_servedPath hpath
      have hchosen : extensionOf path = fileExtension (site.docRoot ++ path) := by
        rw [extensionOf_eq hslash, fileExtension, fileExtension,
          extension_append_of_mem _ (.inl hslash)]
      cases hopen : site.openFile (cString (site.docRoot ++ path)) with
      | none => simp [hpath, hopen, Reply.stockReply] at hok
      | some content =>
          refine ⟨⟨_, _, content, rfl, rfl, hopen, by simp [hopen]⟩, ?_⟩
          simp [hchosen, keepsExtension_iff]

/-- A site with one file. -/
def oneFile (name content : List UInt8) : Site :=
  ⟨[], fun other => if other = name then some content else none⟩

def getUri (uri : String) : Request := { Request.new with uri := chars uri }

/-- A directory: its index is opened, and the type is that of the index. -/
theorem typeOfFile_iff_index :
    TypeOfFile (oneFile (chars "/a.b/index.html") (chars "hello")) (getUri "/a.b/") := by
  have h := (typeOfFile_iff (oneFile (chars "/a.b/index.html") (chars "hello")) (getUri "/a.b/")
    (by decide)).2
  refine h.mpr fun path hpath => .inl ?_
  obtain rfl : path = chars "/a.b/index.html" := by
    simpa using hpath.symm.trans (by decide : _ = some (chars "/a.b/index.html"))
  decide

/-- A file without an extension is sent as `text/html`. -/
theorem typeOfFile_counterexample :
    (handleRequest (oneFile (chars "/a") (chars "hello")) (getUri "/a%00.html")).status = .ok ∧
      ¬ TypeOfFile (oneFile (chars "/a") (chars "hello")) (getUri "/a%00.html") := by
  decide

end HttpServer

end Splice
