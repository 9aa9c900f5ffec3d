import Scriptlet.Report.Reporter

/-! What a reporter has reported.

What is written of an error depends on the files that are registered then and on
nothing else that a reporter knows of errors before it (`wording`). So what comes of
reporting errors one after the other can be told at once: they are counted, and the log
goes on with the wording of each (`reportAll_eq`). Where files are registered in between,
`History` tells of each error in which state the reporter was, and the text that was
written is what the history says (`History.log`). -/
namespace Scriptlet

namespace Reporter

/-! ### Files -/

/-- No file is registered but the one under the path. -/
def Only (path : String) (r : Reporter) : Prop :=
  r.files.map Prod.fst = [path]

theorem Only.setEntry {path : String} {r : Reporter} (h : Only path r) (e : Entry) :
    Reporter.setEntry path e r.files = [(path, e)] := by
  obtain ⟨⟨p, old⟩, hfiles, hp⟩ := List.map_eq_singleton_iff.mp h
  subst hp
  rw [hfiles, Reporter.setEntry, if_pos rfl]

theorem Only.registerLine {path : String} {r : Reporter} (h : Only path r) (line : Option String)
    (number : Option Int) : (r.registerLine path line number).files = [(path, ⟨line, number⟩)] :=
  h.setEntry _

/-! ### Errors with a place -/

/-- The errors of those reported that have a place. -/
def placed (xs : List (Notice × Reporter)) : List Notice :=
  (xs.map Prod.fst).filter fun n => n.place.isSome

theorem placed_append (xs ys : List (Notice × Reporter)) :
    placed (xs ++ ys) = placed xs ++ placed ys := by
  rw [placed, List.map_append, List.filter_append]
  rfl

theorem placed_eq_nil {xs : List (Notice × Reporter)} (h : ∀ x ∈ xs, x.1.place = none) :
    placed xs = [] := by
  refine List.filter_eq_nil_iff.mpr fun n hn => ?_
  obtain ⟨x, hx, rfl⟩ := List.mem_map.mp hn
  rw [h x hx]
  exact Bool.false_ne_true

/-! ### One error after the other -/

/-- The errors that a reporter reports of those it is to report: a fatal one reports the first. -/
def reported (ns : List Notice) (r : Reporter) : List Notice :=
  if r.fatal then ns.take 1 else ns

theorem mem_of_mem_reported {n : Notice} {ns : List Notice} {r : Reporter}
    (h : n ∈ r.reported ns) : n ∈ ns := by
  unfold reported at h
  split at h
  · exact List.mem_of_mem_take h
  · exact h

variable [Text.Painter]

/-- What is written of an error. -/
def wording (n : Notice) (r : Reporter) : String :=
  r.trace ++ r.boldLocation n ++
    (if n.internal then Text.emphasize r.styled (some .red) "[internal] " else "") ++
    Text.emphasize r.styled (some .red) "error: " ++ n.render r.styled ++ "\n" ++ r.excerpt n

/-- The reporter with the wording of errors in its log, and with the count of them. -/
def having (ns : List Notice) (r : Reporter) : Reporter :=
  { r with
    errors := r.errors + ns.length
    log := r.log ++ String.join (ns.map fun n => r.wording n) }

theorem having_nil (r : Reporter) : r.having [] = r := by
  show Reporter.mk _ _ _ _ (r.log ++ "") = r
  rw [String.append_empty]
  rfl

theorem having_cons (n : Notice) (ns : List Notice) (r : Reporter) :
    (r.report n).having ns = r.having (n :: ns) := by
  have hlog : (r.report n).log = r.log ++ r.wording n := rfl
  have hjoin : String.join ((n :: ns).map fun n => r.wording n) =
      r.wording n ++ String.join (ns.map fun n => r.wording n) :=
    String.join_cons
  have hcount : r.errors + 1 + ns.length = r.errors + (n :: ns).length := by
    rw [List.length_cons]
    omega
  rw [having, having, hlog, hjoin, ← hcount, String.append_assoc]
  rfl

theorem foldl_report (ns : List Notice) (r : Reporter) :
    ns.foldl (fun r n => r.report n) r = r.having ns := by
  induction ns generalizing r with
  | nil => exact (having_nil r).symm
  | cons n ns ih => rw [List.foldl_cons, ih, having_cons]

theorem reportAll_eq (ns : List Notice) (r : Reporter) :
    r.reportAll ns = r.having (r.reported ns) := by
  rw [← foldl_report]
  unfold reportAll reported
  split
  · cases ns <;> rfl
  · rfl

theorem reportAll_lenient {r : Reporter} (h : r.fatal = false) (ns : List Notice) :
    r.reportAll ns = r.having ns := by
  rw [reportAll_eq, reported, h]
  rfl

theorem fatal_reportAll (ns : List Notice) (r : Reporter) : (r.reportAll ns).fatal = r.fatal := by
  rw [reportAll_eq]
  rfl

/-! ### Histories -/

/-- What becomes of a reporter that registers files under a path and reports errors: the errors,
each with the reporter as it was then. -/
inductive History (path : String) : Reporter → List (Notice × Reporter) → Reporter → Prop
  | done (r) : History path r [] r
  | registers {r reports t} (line number) :
      History path (r.registerLine path line number) reports t → History path r reports t
  | reports {r reports t} (n) :
      History path (r.report n) reports t → History path r ((n, r) :: reports) t

variable {path : String} {r s t : Reporter} {xs ys : List (Notice × Reporter)}

theorem History.append (h : History path r xs s) (h' : History path s ys t) :
    History path r (xs ++ ys) t := by
  induction h with
  | done r => exact h'
  | registers line number _ ih => exact .registers line number (ih h')
  | reports n _ ih => exact .reports n (ih h')

/-- The history says all that is written. -/
theorem History.log (h : History path r xs t) :
    t.log = r.log ++ String.join (xs.map fun x => x.2.wording x.1) := by
  induction h with
  | done r => exact (String.append_empty).symm
  | registers line number _ ih => exact ih
  | @reports r xs t n _ ih =>
    have hwritten : (r.report n).log = r.log ++ r.wording n := rfl
    rw [ih, hwritten, List.map_cons, String.join_cons, String.append_assoc]

theorem History.only (h : History path r xs t) (hr : Only path r) : Only path t := by
  induction h with
  | done r => exact hr
  | registers line number _ ih =>
    refine ih ?_
    rw [Only, hr.registerLine]
    rfl
  | reports n _ ih => exact ih hr

/-- Reporting errors one after the other registers nothing. -/
theorem history_having (path : String) (ns : List Notice) (r : Reporter) :
    ∃ xs, History path r xs (r.having ns) ∧
      xs.map Prod.fst = ns ∧ ∀ x ∈ xs, x.2.files = r.files := by
  induction ns generalizing r with
  | nil => exact ⟨[], (having_nil r).symm ▸ .done r, rfl, List.forall_mem_nil _⟩
  | cons n ns ih =>
    obtain ⟨xs, hxs, hns, hall⟩ := ih (r.report n)
    rw [having_cons] at hxs
    exact ⟨(n, r) :: xs, .reports n hxs, by rw [List.map_cons, hns],
      List.forall_mem_cons.mpr ⟨rfl, hall⟩⟩

theorem history_reportAll (path : String) (ns : List Notice) (r : Reporter) :
    ∃ xs, History path r xs (r.reportAll ns) ∧
      xs.map Prod.fst = r.reported ns ∧ ∀ x ∈ xs, x.2.files = r.files := by
  rw [reportAll_eq]
  exact history_having path _ r

end Reporter

end Scriptlet
