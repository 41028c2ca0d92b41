import RowStore.Engine
import RowStore.Proofs.Engine.Shelves
/-!
# A file of pages

A table's file that is open, and nothing but calls on it: to read a page, to write one, to add one. Whatever was
in the file when it was opened, it is from then on an array of pages: a page that is there is what was last
written to it, or else what it was when the file was opened or when the page was added. A call changes the page
that it names and no other, and none if it names a page that is not there.
-/

namespace RowStore

/-- A table's file that is open, and what is in the file. -/
structure OpenFile where
  file : TableFile
  contents : Bytes

inductive FileCall where
  | read (page : PageId)
  | write (page : Page)
  | extend

inductive FileAnswer where
  | page (page : Page)
  | done
  | added (page : PageId)

namespace FileCall

def page? : FileCall → Option PageId
  | .read page => some page
  | .write page => some page.id
  | .extend => none

/-- A page that is written has the size of the pages of the file and can be read again. -/
def Fits (pageSize : Nat) : FileCall → Prop
  | .write page => page.Shaped ∧ page.size = pageSize
  | _ => True

def adds : FileCall → Nat
  | .extend => 1
  | _ => 0

/-- What the call has left in the page, if it has changed it. -/
def leaves (number : Nat) : FileCall × Except Fault FileAnswer → Option Bytes
  | (.write page, .ok _) => if page.id.number = number then some page.encode else none
  | _ => none

end FileCall

namespace OpenFile

def opened (table : TableId) (name : String) (schema : Schema) (pageSize : Nat) (contents : Bytes) : OpenFile :=
  ⟨.ofContents table name schema pageSize contents, contents⟩

/-- What the call answers, and the file after it: as it was if the answer is a fault. -/
def call (o : OpenFile) : FileCall → Except Fault FileAnswer × OpenFile
  | .read page =>
    match o.file.read o.contents page with
    | .ok (loaded, file) => (.ok (.page loaded), { o with file })
    | .error fault => (.error fault, o)
  | .write page =>
    match o.file.write o.contents page with
    | .ok (contents, file) => (.ok .done, { file, contents })
    | .error fault => (.error fault, o)
  | .extend =>
    let (contents, file) := o.file.extend o.contents
    (.ok (.added (o.file.pageId o.file.pages)), { file, contents })

def bytesOf (o : OpenFile) (number : Nat) : Bytes := o.contents.region (o.file.offset number) o.file.pageSize

def Has (o : OpenFile) (page : PageId) : Prop := page.table = o.file.table ∧ page.number < o.file.pages

def refusal (o : OpenFile) (page : PageId) : Fault :=
  if page.table = o.file.table then .pastEnd page o.file.name else .unknownTable page.table

/-- What the next call does where the pages are as they are said to be. -/
structure Serves (o : OpenFile) (pages : Nat → Bytes) : Prop where
  read : ∀ page, o.Has page → ∃ loaded, Page.decode? page o.file.schema (pages page.number) = some loaded ∧
    (o.call (.read page)).1 = .ok (.page loaded) ∧ (o.call (.read page)).2.contents = o.contents
  write : ∀ page, page.Shaped → page.size = o.file.pageSize → o.Has page.id →
    (o.call (.write page)).1 = .ok .done ∧ (o.call (.write page)).2.bytesOf page.id.number = page.encode
  extend : (o.call .extend).1 = .ok (.added ⟨o.file.table, o.file.pages⟩) ∧
    (o.call .extend).2.contents.length = (o.file.pages + 1) * o.file.pageSize
  count : ∀ call, (o.call call).2.file.pages = o.file.pages + call.adds
  others : ∀ call, call.Fits o.file.pageSize → ∀ number < o.file.pages,
    (∀ page, call = .write page → page.id.number ≠ number) → (o.call call).2.bytesOf number = o.bytesOf number
  refused : ∀ call page, call.page? = some page → ¬o.Has page → o.call call = (.error (o.refusal page), o)

end OpenFile

/-- What has become of calls: the answers, the latest first, and the file as it is after them. -/
structure FileCourse where
  history : List (FileCall × Except Fault FileAnswer)
  now : OpenFile

namespace FileCourse

def next (c : FileCourse) (call : FileCall) : FileCourse :=
  ⟨(call, (c.now.call call).1) :: c.history, (c.now.call call).2⟩

def after (start : OpenFile) (calls : List FileCall) : FileCourse := calls.foldl next ⟨[], start⟩

/-- What was last written to the page, or else what it was at the start, or zeros if it was not there yet. -/
def lastOf (c : FileCourse) (start : OpenFile) (number : Nat) : Bytes :=
  (c.history.findSome? (FileCall.leaves number)).getD
    (if number < start.file.pages then start.bytesOf number else Bytes.zeros start.file.pageSize)

end FileCourse

/-! ### One call -/

namespace OpenFile

variable {o : OpenFile}

theorem checkBounds_of_has {page : PageId} (has : o.Has page) : o.file.checkBounds page = .ok () :=
  (o.file.checkBounds_eq_ok_iff page).mpr has

theorem checkBounds_of_not_has {page : PageId} (absent : ¬o.Has page) :
    o.file.checkBounds page = .error (o.refusal page) := by
  rw [TableFile.checkBounds, refusal]
  by_cases own : page.table = o.file.table
  · rw [if_neg (not_not.mpr own), if_pos own, if_pos (Nat.not_lt.mp fun inside => absent ⟨own, inside⟩)]
  · rw [if_pos own, if_neg own]

/-- The pages that there are stand in the file, and what comes after them is less than a page. -/
structure Sized (o : OpenFile) : Prop where
  long : o.file.pages * o.file.pageSize ≤ o.contents.length
  short : o.contents.length < (o.file.pages + 1) * o.file.pageSize

theorem sized_opened (table : TableId) (name : String) {schema : Schema} {pageSize : Nat} (contents : Bytes)
    (positive : 0 < pageSize) : (opened table name schema pageSize contents).Sized where
  long := Nat.div_mul_le_self ..
  short := Nat.lt_mul_of_div_lt (Nat.lt_succ_self _) positive

/-- What there is for a call to come to. -/
inductive Called (o : OpenFile) : FileCall → Except Fault FileAnswer × OpenFile → Prop where
  | refused {call : FileCall} {page : PageId} (named : call.page? = some page) (absent : ¬o.Has page) :
      Called o call (.error (o.refusal page), o)
  | read {page : PageId} {loaded : Page} (has : o.Has page)
      (decoded : Page.decode? page o.file.schema (o.bytesOf page.number) = some loaded) :
      Called o (.read page) (.ok (.page loaded), { o with file := { o.file with reads := o.file.reads + 1 } })
  | written {page : Page} (has : o.Has page.id) :
      Called o (.write page) (.ok .done,
        { file := { o.file with writes := o.file.writes + 1 }
          contents := o.contents.overwrite (o.file.offset page.id.number) page.encode })
  | extended :
      Called o .extend (.ok (.added ⟨o.file.table, o.file.pages⟩),
        { file := { o.file with pages := o.file.pages + 1 }
          contents := o.contents.overwrite (o.file.offset o.file.pages) (Bytes.zeros o.file.pageSize) })

namespace Sized

variable (sized : o.Sized)
include sized

theorem stop_le {number : Nat} (inside : number < o.file.pages) :
    o.file.offset number + o.file.pageSize ≤ o.contents.length := by
  have stop := Nat.mul_le_mul_right o.file.pageSize inside
  rw [Nat.succ_mul] at stop
  exact Nat.le_trans stop sized.long

theorem length_bytesOf {number : Nat} (inside : number < o.file.pages) :
    (o.bytesOf number).length = o.file.pageSize := by
  have stop := sized.stop_le inside
  rw [bytesOf, Bytes.length_region]
  omega

theorem called_call (call : FileCall) : o.Called call (o.call call) := by
  cases call with
  | read page =>
    by_cases has : o.Has page
    · obtain ⟨loaded, decoded⟩ := Page.exists_decode? page o.file.schema (o.bytesOf page.number)
      have done : o.file.read o.contents page = .ok (loaded, { o.file with reads := o.file.reads + 1 }) := by
        have whole := sized.length_bytesOf has.2
        rw [bytesOf] at decoded whole
        rw [TableFile.read, checkBounds_of_has has]
        simp only [bind, Except.bind, if_neg (Nat.not_lt.mpr (Nat.le_of_eq whole.symm)), decoded]
        rfl
      rw [OpenFile.call, done]
      exact .read has decoded
    · rw [OpenFile.call, TableFile.read, checkBounds_of_not_has has]
      exact .refused rfl has
  | write page =>
    by_cases has : o.Has page.id
    · rw [OpenFile.call, TableFile.write_eq has.1 has.2]
      exact .written has
    · rw [OpenFile.call, TableFile.write, checkBounds_of_not_has has]
      exact .refused rfl has
  | extend => exact .extended

theorem region_apart {data : Bytes} {number other : Nat} (whole : data.length = o.file.pageSize)
    (inside : other ≤ o.file.pages) (differs : number ≠ other) :
    (o.contents.overwrite (o.file.offset other) data).region (o.file.offset number) o.file.pageSize =
      o.bytesOf number := by
  have start : o.file.offset other ≤ o.contents.length :=
    Nat.le_trans (Nat.mul_le_mul_right _ inside) sized.long
  apply Bytes.region_overwrite_apart _ _ _ _ _ start
  rw [whole, TableFile.offset, TableFile.offset, ← Nat.succ_mul, ← Nat.succ_mul]
  rcases Nat.lt_or_gt_of_ne differs with before | after
  · exact .inl (Nat.mul_le_mul_right _ before)
  · exact .inr (Nat.mul_le_mul_right _ after)

theorem region_written {data : Bytes} {number : Nat} (whole : data.length = o.file.pageSize)
    (inside : number ≤ o.file.pages) :
    (o.contents.overwrite (o.file.offset number) data).region (o.file.offset number) o.file.pageSize = data := by
  rw [← whole]
  exact Bytes.region_overwrite_self _ _ _ (Nat.le_trans (Nat.mul_le_mul_right _ inside) sized.long)

/-- What is left of a page at the end of the file is part of the page that is added. -/
theorem length_extended :
    (o.contents.overwrite (o.file.offset o.file.pages) (Bytes.zeros o.file.pageSize)).length =
      (o.file.pages + 1) * o.file.pageSize := by
  have short := sized.short
  rw [TableFile.offset, Bytes.length_overwrite _ _ _ sized.long, Bytes.length_zeros, ← Nat.succ_mul]
  exact Nat.max_eq_right (Nat.le_of_lt short)

end Sized

theorem leaves_of_other {call : FileCall} {answer : Except Fault FileAnswer} {number : Nat}
    (other : ∀ page, call = .write page → page.id.number ≠ number) :
    FileCall.leaves number (call, answer) = none := by
  cases call with
  | write page =>
    cases answer with
    | ok _ => exact if_neg (other page rfl)
    | error _ => rfl
  | _ => rfl

namespace Called

variable {call : FileCall} {result : Except Fault FileAnswer × OpenFile} (called : o.Called call result)
include called

theorem pages_eq_add : result.2.file.pages = o.file.pages + call.adds := by
  cases called with
  | @refused call _ named _ =>
    cases call with
    | extend => exact absurd named (by simp [FileCall.page?])
    | _ => rfl
  | _ => rfl

theorem file_eq : ∃ reads writes, result.2.file = { o.file with reads, writes, pages := result.2.file.pages } := by
  cases called <;> exact ⟨_, _, rfl⟩

theorem leaves_of_past {number : Nat} (past : o.file.pages ≤ number) :
    FileCall.leaves number (call, result.1) = none := by
  cases called with
  | @refused call => cases call <;> rfl
  | read => rfl
  | written has => exact if_neg fun same => absurd has.2 (by omega)
  | extended => rfl

/-- What is in a page after the call is what the call has left there, or else what was there, or zeros. -/
theorem bytesOf_eq (sized : o.Sized) (fits : call.Fits o.file.pageSize) {number : Nat}
    (inside : number < result.2.file.pages) :
    result.2.bytesOf number = (FileCall.leaves number (call, result.1)).getD
      (if number < o.file.pages then o.bytesOf number else Bytes.zeros o.file.pageSize) := by
  cases called with
  | @refused call =>
    rw [if_pos inside]
    cases call <;> rfl
  | read =>
    rw [if_pos inside]
    rfl
  | @written page has =>
    have whole := fits.1.length_encode.trans fits.2
    rw [if_pos inside, FileCall.leaves]
    by_cases same : page.id.number = number
    · subst same
      rw [if_pos rfl, Option.getD_some]
      exact sized.region_written whole (Nat.le_of_lt has.2)
    · rw [if_neg same, Option.getD_none]
      exact sized.region_apart whole (Nat.le_of_lt has.2) (Ne.symm same)
  | extended =>
    rw [leaves_of_other fun page same => FileCall.noConfusion same, Option.getD_none]
    rcases Nat.lt_succ_iff_lt_or_eq.mp inside with before | rfl
    · rw [if_pos before]
      exact sized.region_apart (Bytes.length_zeros _) (Nat.le_refl _) (Nat.ne_of_lt before)
    · rw [if_neg (Nat.lt_irrefl _)]
      exact sized.region_written (Bytes.length_zeros _) (Nat.le_refl _)

theorem sized_after (sized : o.Sized) (positive : 0 < o.file.pageSize) (fits : call.Fits o.file.pageSize) :
    result.2.Sized := by
  cases called with
  | refused => exact sized
  | read => exact ⟨sized.long, sized.short⟩
  | @written page has =>
    have whole := fits.1.length_encode.trans fits.2
    have stop := sized.stop_le has.2
    have length : (o.contents.overwrite (o.file.offset page.id.number) page.encode).length = o.contents.length := by
      rw [Bytes.length_overwrite _ _ _ (by omega), whole]
      exact Nat.max_eq_left stop
    exact ⟨length ▸ sized.long, length ▸ sized.short⟩
  | extended =>
    have length := sized.length_extended
    refine ⟨Nat.le_of_eq length.symm, ?_⟩
    show _ < (o.file.pages + 1 + 1) * o.file.pageSize
    rw [length, Nat.succ_mul (o.file.pages + 1)]
    exact Nat.lt_add_of_pos_right positive

end Called

theorem Sized.serves_pages (sized : o.Sized) {pages : Nat → Bytes}
    (same : ∀ number < o.file.pages, o.bytesOf number = pages number) : o.Serves pages where
  read page has := by
    have called := sized.called_call (.read page)
    generalize o.call (.read page) = result at called ⊢
    cases called with
    | refused named absent =>
      cases named
      exact absurd has absent
    | read _ decoded =>
      rw [same page.number has.2] at decoded
      exact ⟨_, decoded, rfl, rfl⟩
  write page shaped size has := by
    have called := sized.called_call (.write page)
    generalize o.call (.write page) = result at called ⊢
    cases called with
    | refused named absent =>
      cases named
      exact absurd has absent
    | written => exact ⟨rfl, sized.region_written (shaped.length_encode.trans size) (Nat.le_of_lt has.2)⟩
  extend := ⟨rfl, sized.length_extended⟩
  count call := (sized.called_call call).pages_eq_add
  others call fits number inside other := by
    have called := sized.called_call call
    have still := Nat.lt_of_lt_of_le inside (Nat.le.intro called.pages_eq_add.symm)
    rw [called.bytesOf_eq sized fits still, leaves_of_other other, Option.getD_none, if_pos inside]
  refused call page named absent := by
    have called := sized.called_call call
    generalize o.call call = result at called ⊢
    cases called with
    | refused named' _ =>
      cases named.symm.trans named'
      rfl
    | read has =>
      cases named
      exact absurd has absent
    | written has =>
      cases named
      exact absurd has absent
    | extended => exact absurd named (by simp [FileCall.page?])

end OpenFile

/-! ### Many calls -/

namespace FileCourse

variable {start : OpenFile} {c : FileCourse}

/-- After calls on a file that was opened, its pages are what they should be. -/
structure Kept (start : OpenFile) (c : FileCourse) : Prop where
  file : ∃ reads writes, c.now.file = { start.file with reads, writes, pages := c.now.file.pages }
  grown : start.file.pages ≤ c.now.file.pages
  sized : c.now.Sized
  unwritten : ∀ number, c.now.file.pages ≤ number → c.history.findSome? (FileCall.leaves number) = none
  pages : ∀ number < c.now.file.pages, c.now.bytesOf number = c.lastOf start number

theorem kept_start (sized : start.Sized) : Kept start ⟨[], start⟩ where
  file := ⟨_, _, rfl⟩
  grown := Nat.le_refl _
  sized := sized
  unwritten _ _ := rfl
  pages _ inside := (if_pos inside).symm

/-- What a page should be after a call more is what the call has left there, or else what it should have been. -/
theorem lastOf_next (call : FileCall) (number : Nat) :
    (c.next call).lastOf start number =
      (FileCall.leaves number (call, (c.now.call call).1)).getD (c.lastOf start number) := by
  rw [lastOf, next, List.findSome?_cons]
  cases FileCall.leaves number (call, (c.now.call call).1) <;> rfl

theorem Kept.kept_next (kept : Kept start c) (positive : 0 < start.file.pageSize) {call : FileCall}
    (fits : call.Fits start.file.pageSize) : Kept start (c.next call) := by
  obtain ⟨reads, writes, file⟩ := kept.file
  have size : c.now.file.pageSize = start.file.pageSize := by rw [file]
  have fits' : call.Fits c.now.file.pageSize := by rwa [size]
  have called := kept.sized.called_call call
  have more : c.now.file.pages ≤ (c.next call).now.file.pages := Nat.le.intro called.pages_eq_add.symm
  refine ⟨?_, Nat.le_trans kept.grown more, called.sized_after kept.sized (by rwa [size]) fits', ?_, ?_⟩
  · obtain ⟨reads', writes', file'⟩ := called.file_eq
    exact ⟨reads', writes', by rw [FileCourse.next, file', file]⟩
  · intro number past
    have absent := Nat.le_trans more past
    rw [FileCourse.next, List.findSome?_cons, called.leaves_of_past absent, kept.unwritten number absent]
  · intro number inside
    rw [lastOf_next, FileCourse.next, called.bytesOf_eq kept.sized fits' inside]
    congr 1
    by_cases before : number < c.now.file.pages
    · rw [if_pos before, kept.pages number before]
    · have past := Nat.not_lt.mp before
      rw [if_neg before, lastOf, kept.unwritten number past, Option.getD_none, size,
        if_neg (Nat.not_lt.mpr (Nat.le_trans kept.grown past))]

theorem kept_after (sized : start.Sized) (positive : 0 < start.file.pageSize) (calls : List FileCall)
    (fit : ∀ call ∈ calls, call.Fits start.file.pageSize) : Kept start (after start calls) := by
  induction calls using List.reverseRecOn with
  | nil => exact kept_start sized
  | append_singleton rest call ih =>
    rw [after, List.foldl_append]
    exact (ih fun call among => fit call (List.mem_append_left _ among)).kept_next positive (fit call (by simp))

end FileCourse

/-- Whatever was in a file when it was opened, and whatever calls there have been on it since, a page that is there
is what was last written to it, or else what it was at the opening, or zeros if it has been added since; and the
next call does to the pages what it should. -/
theorem file_is_an_array_of_pages (table : TableId) (name : String) (schema : Schema) (pageSize : Nat)
    (contents : Bytes) (roomy : Engine.checkPageSize pageSize schema = .ok ()) (calls : List FileCall)
    (fit : ∀ call ∈ calls, call.Fits pageSize) :
    let start := OpenFile.opened table name schema pageSize contents
    let course := FileCourse.after start calls
    (∃ reads writes, course.now.file = { start.file with reads, writes, pages := course.now.file.pages }) ∧
      (∀ number < course.now.file.pages,
        course.now.bytesOf number = course.lastOf start number ∧ (course.now.bytesOf number).length = pageSize) ∧
      course.now.Serves (course.lastOf start) := by
  intro start course
  have positive : 0 < pageSize := by
    rw [Engine.checkPageSize] at roomy
    split at roomy
    · exact absurd roomy (by simp)
    · rename_i some
      refine Nat.pos_of_ne_zero fun none => some ?_
      rw [none, Page.capacity, Nat.zero_mul, Nat.zero_div]
  have sized : start.Sized := OpenFile.sized_opened table name contents positive
  have kept : FileCourse.Kept start course := FileCourse.kept_after sized positive calls fit
  have size : course.now.file.pageSize = pageSize := by
    obtain ⟨reads, writes, file⟩ := kept.file
    rw [file]
    rfl
  refine ⟨kept.file, fun number inside => ⟨kept.pages number inside, ?_⟩, kept.sized.serves_pages kept.pages⟩
  rw [kept.sized.length_bytesOf inside, size]

def oneNumber (table number : Nat) (n : Int32) : Page :=
  { id := ⟨⟨table⟩, number⟩, schema := ⟨[⟨some "n", .int⟩]⟩, size := 8, dirtier := none
    slots := [some [.int n]], spare := List.replicate 7 false }

theorem shaped_oneNumber (table number : Nat) (n : Int32) : (oneNumber table number n).Shaped where
  slots := show 1 = Page.capacity 8 ⟨[⟨some "n", .int⟩]⟩ by decide
  spare := show 1 + (List.replicate 7 false).length = 8 * Bitmap.size 1 by decide
  typed values used := by
    cases List.mem_singleton.mp used
    exact .cons rfl .nil

/-- Three bytes more than a page are in the file when it is opened. They are gone with the page that is added, and
that page is then what is written to it, whatever has been tried before. -/
theorem stray_bytes_are_lost :
    let start := OpenFile.opened ⟨1⟩ "t" ⟨[⟨some "n", .int⟩]⟩ 8 [0, 0, 0, 0, 0, 0, 0, 0, 1, 2, 3]
    let course := FileCourse.after start [.write (oneNumber 1 1 6), .extend, .write (oneNumber 1 1 7)]
    course.now.file.pages = 2 ∧ course.now.bytesOf 1 = [1, 0, 0, 0, 7, 0, 0, 0] ∧
      (course.now.call .extend).2.contents.length = 24 := by
  have done := file_is_an_array_of_pages ⟨1⟩ "t" ⟨[⟨some "n", .int⟩]⟩ 8 [0, 0, 0, 0, 0, 0, 0, 0, 1, 2, 3] (by decide)
    [.write (oneNumber 1 1 6), .extend, .write (oneNumber 1 1 7)] (by
      simp only [List.forall_mem_cons, List.not_mem_nil, false_imp_iff, implies_true, and_true]
      exact ⟨⟨shaped_oneNumber 1 1 6, rfl⟩, trivial, ⟨shaped_oneNumber 1 1 7, rfl⟩⟩)
  obtain ⟨-, pages, serves⟩ := done
  exact ⟨by decide +kernel, (pages 1 (by decide +kernel)).1.trans (by decide +kernel),
    serves.extend.2.trans (by decide +kernel)⟩

end RowStore
