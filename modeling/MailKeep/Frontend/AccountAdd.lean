import MailKeep.Accounts.Creation
import MailKeep.Frontend.SubtreeSelection

/-! The page that adds an account: the connection is tested, the folders are listed and picked, and the form is submitted. -/
namespace MailKeep

namespace FolderTree

def selectAll (t : FolderTree) (value : Bool) : FolderTree := ⟨t.nodes.map (·.mark value)⟩

/-- The folder used as inbox, or else one of that name. -/
def defaultSelectInbox (t : FolderTree) : FolderTree :=
  match t.nodes.findIdx? (·.specialUse = some "inbox") with
  | some i => t.select true i
  | none =>
    match t.nodes.findIdx? (fun n => eqIgnoreAsciiCase n.name.toList "INBOX".toList) with
    | some i => t.select true i
    | none => t

def selectedCount (t : FolderTree) : Nat := (t.nodes.filter fun n => n.selected && !n.noSelect).length

def selectedNewFolders (t : FolderTree) : List NewFolderDto :=
  (t.nodes.filter fun n => n.selected && !n.noSelect).map fun n => ⟨n.path, n.specialUse, false⟩

end FolderTree

/-- `str::parse::<u16>`. -/
def parseU16 (s : List Char) : Option (Fin 65536) :=
  let digits := match s with
    | '+' :: rest => rest
    | s => s
  if digits.isEmpty || !digits.all Char.isDigit then none
  else
    let n := digits.foldl (fun n c => 10 * n + (c.toNat - 48)) 0
    if h : n < 65536 then some ⟨n, h⟩ else none

inductive ConnectionField
  | displayName
  | host
  | port
  | tls
  | email
  | password
deriving DecidableEq

structure ConnectionForm where
  displayName : String
  host : String
  port : String
  tls : String
  email : String
  password : String
  portTouched : Bool
deriving DecidableEq

structure ProbeRequest where
  server : ServerConfigDto
  email : String
  password : String
deriving DecidableEq

namespace ConnectionForm

def serverDto (form : ConnectionForm) : ServerConfigDto :=
  ⟨trimmed form.host, (parseU16 (trim form.port.toList)).getD 0, form.tls⟩

def request (form : ConnectionForm) : ProbeRequest := ⟨form.serverDto, trimmed form.email, form.password⟩

/-- The port follows the encryption until it has been edited. -/
def edit (form : ConnectionForm) (value : String) : ConnectionField → ConnectionForm
  | .displayName => { form with displayName := value }
  | .host => { form with host := value }
  | .port => { form with port := value, portTouched := true }
  | .tls =>
    let default := if value = "StartTls" then "143" else "993"
    { form with tls := value, port := if form.portTouched then form.port else default }
  | .email => { form with email := value }
  | .password => { form with password := value }

def complaint (form : ConnectionForm) : Option String :=
  if isBlank form.displayName then some "Display name is required."
  else if isBlank form.host then some "IMAP server is required."
  else if form.serverDto.port = 0 then some "Enter a valid port."
  else if '@' ∉ form.email.toList then some "Enter a valid email address."
  else if form.password.isEmpty then some "Password is required."
  else none

end ConnectionForm

/-- The call a probe waits for: the test, or the listing, which the test goes on to or which is loaded again. -/
inductive ProbeCall
  | testing (asked : ProbeRequest)
  | listing (asked : ProbeRequest) (again : Bool)
deriving DecidableEq

def ProbeCall.asked : ProbeCall → ProbeRequest
  | .testing asked => asked
  | .listing asked _ => asked

/-- The signals of the page; `probing` and `submitting` hold the call that is out. -/
structure AccountAddPage where
  form : ConnectionForm
  tree : FolderTree
  pickerShown : Bool
  pickerStale : Bool
  connectedEmail : Option String
  probing : Option ProbeCall
  connError : Option String
  folderError : Option String
  submitError : Option String
  submitting : Option NewAccountDto
  /-- The page has gone home. -/
  left : Bool
deriving DecidableEq

inductive AccountAddEvent
  | edit (field : ConnectionField) (value : String)
  | probe
  | retry
  | toggle (idx : Nat)
  | selectAll (value : Bool)
  | submit
  | tested (answer : Except ServerFnError Unit)
  | listed (answer : Except ServerFnError (List RemoteFolderDto))
  | created (answer : Except ServerFnError AccountSummaryDto)

namespace AccountAddPage

def fresh : AccountAddPage where
  form := ⟨"", "", "993", "Tls", "", "", false⟩
  tree := ⟨[]⟩
  pickerShown := false
  pickerStale := false
  connectedEmail := none
  probing := none
  connError := none
  folderError := none
  submitError := none
  submitting := none
  left := false

/-- What the page lets through: inputs are disabled while a probe is out, buttons appear or are enabled, and only calls that
are out are answered. -/
def Enabled (page : AccountAddPage) (event : AccountAddEvent) : Prop :=
  page.left = false ∧ match event with
  | .edit _ _ | .probe => page.probing = none
  | .retry => page.folderError.isSome ∧ page.probing = none
  | .toggle idx => page.pickerShown = true ∧ idx < page.tree.nodes.length
  | .selectAll _ => page.pickerShown = true
  | .submit => page.pickerShown = true ∧ page.submitting = none ∧ page.pickerStale = false ∧ page.tree.selectedCount ≠ 0
  | .tested _ => ∃ asked, page.probing = some (.testing asked)
  | .listed _ => ∃ asked again, page.probing = some (.listing asked again)
  | .created _ => page.submitting.isSome

def payload (page : AccountAddPage) : NewAccountDto where
  displayName := trimmed page.form.displayName
  email := trimmed page.form.email
  server := page.form.serverDto
  password := page.form.password
  folders := page.tree.selectedNewFolders

def onProbe (page : AccountAddPage) : AccountAddPage :=
  match page.form.complaint with
  | some text => { page with connError := some text, folderError := none }
  | none => { page with connError := none, folderError := none, probing := some (.testing page.form.request) }

def onListed (page : AccountAddPage) : Except ServerFnError (List RemoteFolderDto) → AccountAddPage
  | .ok folders => { page with
      tree := (FolderTree.build folders).defaultSelectInbox, pickerShown := true, pickerStale := false, probing := none }
  | .error e =>
    match page.probing with
    | some (.listing _ true) => { page with folderError := some e, probing := none }
    | _ => { page with pickerShown := false, folderError := some e, probing := none }

def onSubmit (page : AccountAddPage) : AccountAddPage :=
  if page.payload.folders.isEmpty then { page with submitError := some "Select at least one folder." }
  else { page with submitError := none, submitting := some page.payload }

/-- No result where an index panics. -/
def step (page : AccountAddPage) : AccountAddEvent → Option AccountAddPage
  | .edit field value => some { page with
      form := page.form.edit value field
      pickerStale := page.pickerStale || page.pickerShown && decide (field ≠ .displayName) }
  | .probe => some page.onProbe
  | .retry => some { page with folderError := none, probing := some (.listing page.form.request true) }
  | .toggle idx => do
    let node ← page.tree.nodes[idx]?
    let tree ← page.tree.setSubtree idx !node.selected
    return { page with tree }
  | .selectAll value => some { page with tree := page.tree.selectAll value }
  | .submit => some page.onSubmit
  | .tested (.ok ()) => some { page with
      connectedEmail := some (trimmed page.form.email), probing := some (.listing page.form.request false) }
  | .tested (.error _) => some { page with
      pickerShown := false, connError := some "Login failed — check your email and password.", probing := none }
  | .listed answer => some (page.onListed answer)
  | .created (.ok _) => some { page with left := true }
  | .created (.error e) => some { page with submitError := some e, submitting := none }

end AccountAddPage

inductive FolderTick
  | folder (idx : Nat)
  | all (value : Bool)

def FolderTick.apply (t : FolderTree) : FolderTick → Option FolderTree
  | .folder idx => do
    let node ← t.nodes[idx]?
    t.setSubtree idx !node.selected
  | .all value => some (t.selectAll value)

/-- The last list of folders that came, what it was asked with, and the clicks on it. -/
structure AddHistory where
  listed : Option (ProbeRequest × List RemoteFolderDto)
  ticks : List FolderTick

def AddHistory.record (h : AddHistory) (page : AccountAddPage) : AccountAddEvent → AddHistory
  | .listed (.ok folders) => ⟨page.probing.map fun call => (call.asked, folders), []⟩
  | .toggle idx => { h with ticks := h.ticks ++ [.folder idx] }
  | .selectAll value => { h with ticks := h.ticks ++ [.all value] }
  | _ => h

inductive AddRun : AddHistory → AccountAddPage → Prop
  | opened : AddRun ⟨none, []⟩ .fresh
  | event {h page event next} : AddRun h page → page.Enabled event → page.step event = some next →
    AddRun (h.record page event) next

namespace FolderTree
variable {t u : FolderTree}

private theorem selectAll_sameShape (value : Bool) : (t.selectAll value).SameShape t := by
  unfold SameShape selectAll
  rw [List.map_map]
  rfl

private theorem select_sameShape {i : Nat} {value : Bool} :
    (t.select value i).SameShape t := @foldl_select_sameShape t value [i]

private theorem defaultSelectInbox_sameShape : t.defaultSelectInbox.SameShape t := by
  unfold defaultSelectInbox
  split
  · exact select_sameShape
  · split
    · exact select_sameShape
    · rfl

/-- Every click on a tree that was built for folders finds its way, and keeps the shape. -/
private theorem tick_sameShape (forest : t.IsForest) (tick : FolderTick)
    (there : ∀ idx, tick = .folder idx → idx < t.nodes.length) :
    ∃ next, tick.apply t = some next ∧ next.SameShape t := by
  cases tick with
  | all value => exact ⟨_, rfl, selectAll_sameShape value⟩
  | folder idx =>
    have bound := there idx rfl
    obtain ⟨next, set, same, -⟩ := forest.setSubtree_exact bound !t.nodes[idx].selected
    refine ⟨next, ?_, same⟩
    rw [FolderTick.apply, List.getElem?_eq_getElem bound]
    exact set

/-- The folders picked are rows of the list, and none that cannot be selected is among them. -/
private theorem selectedNewFolders_listed {folders : List RemoteFolderDto} (shape : t.SameShape (build folders)) :
    ∀ f ∈ t.selectedNewFolders, f.noSelect = false ∧
      ∃ g ∈ folders, g.path = f.path ∧ g.specialUse = f.specialUse ∧ g.noSelect = false := by
  intro f mem
  obtain ⟨n, kept, rfl⟩ := List.mem_map.mp mem
  obtain ⟨listed, chosen⟩ := List.mem_filter.mp kept
  have selectable : n.noSelect = false := by
    rw [Bool.and_eq_true, Bool.not_eq_true'] at chosen
    exact chosen.2
  refine ⟨rfl, ?_⟩
  have marked : n.mark false ∈ (build folders).nodes.map (·.mark false) := shape ▸ List.mem_map_of_mem listed
  obtain ⟨m, built, same⟩ := List.mem_map.mp marked
  have row : (m.mark false).row = (n.mark false).row := congrArg FolderNode.row same
  obtain ⟨g, mem, grow⟩ := List.mem_map.mp ((build_rows folders).mem_iff.mp (List.mem_map_of_mem built))
  have rows : g.row = n.row := grow.trans row
  injection rows with path rest
  injection rest with use no
  exact ⟨g, mem, path, use, no.trans selectable⟩

private theorem selectedNewFolders_length : t.selectedNewFolders.length = t.selectedCount := List.length_map _

end FolderTree

namespace AccountAddPage
variable {h : AddHistory} {page next : AccountAddPage} {event : AccountAddEvent}

/-- What holds of the page after what has happened: a call that is out was made with the form as it is, a list that is not
stale was asked with the form as it is, and the tree shows the clicks since the list came. -/
structure Follows (h : AddHistory) (page : AccountAddPage) : Prop where
  calls : ∀ call, page.probing = some call → call.asked = page.form.request
  current : page.pickerShown = true → page.pickerStale = false →
    ∃ folders, h.listed = some (page.form.request, folders)
  clicked : page.pickerShown = true → ∃ asked folders, h.listed = some (asked, folders) ∧
    h.ticks.foldlM FolderTick.apply (FolderTree.build folders).defaultSelectInbox = some page.tree ∧
    page.tree.SameShape (FolderTree.build folders)

private theorem fresh_follows : fresh.Follows ⟨none, []⟩ :=
  ⟨fun _ out => (by cases out), fun shown => (by cases shown), fun shown => (by cases shown)⟩

/-- A click on the folders shown goes through. -/
theorem Follows.tick (follows : page.Follows h) (shown : page.pickerShown = true) (tick : FolderTick)
    (there : ∀ idx, tick = .folder idx → idx < page.tree.nodes.length) : ∃ tree, tick.apply page.tree = some tree ∧
      Follows { h with ticks := h.ticks ++ [tick] } { page with tree } := by
  obtain ⟨asked, folders, listed, clicked, shape⟩ := follows.clicked shown
  have forest := shape.isForest (FolderTree.build_isForest folders)
  obtain ⟨tree, applied, same⟩ := FolderTree.tick_sameShape forest tick there
  refine ⟨tree, applied, follows.calls, follows.current, fun _ => ⟨asked, folders, listed, ?_, same.trans shape⟩⟩
  rw [List.foldlM_append, clicked]
  simpa using applied

/-- A page that hides the folders and has no call out promises nothing. -/
private theorem follows_hidden (idle : page.probing = none) (hidden : page.pickerShown = false) : page.Follows h :=
  ⟨fun _ out => (by cases idle.symm.trans out), fun shown => (by cases hidden.symm.trans shown),
    fun shown => (by cases hidden.symm.trans shown)⟩

theorem Follows.onProbe (follows : page.Follows h) : page.onProbe.Follows h := by
  unfold AccountAddPage.onProbe
  split
  · exact ⟨follows.calls, follows.current, follows.clicked⟩
  · refine ⟨?_, follows.current, follows.clicked⟩
    rintro call ⟨⟩
    rfl

theorem Follows.onSubmit (follows : page.Follows h) : page.onSubmit.Follows h := by
  unfold AccountAddPage.onSubmit
  split <;> exact ⟨follows.calls, follows.current, follows.clicked⟩

theorem Follows.onListed (follows : page.Follows h) {asked : ProbeRequest} {again : Bool}
    (out : page.probing = some (.listing asked again)) (answer : Except ServerFnError (List RemoteFolderDto)) :
    (page.onListed answer).Follows (h.record page (.listed answer)) := by
  have idle : ∀ call, (none : Option ProbeCall) = some call → call.asked = page.form.request := fun _ none_ => by cases none_
  cases answer with
  | ok folders =>
    have current : asked = page.form.request := follows.calls _ out
    have listed : page.probing.map (fun call => (call.asked, folders)) = some (page.form.request, folders) := by
      rw [out, ← current]
      rfl
    exact ⟨idle, fun _ _ => ⟨folders, listed⟩,
      fun _ => ⟨_, folders, listed, rfl, FolderTree.defaultSelectInbox_sameShape⟩⟩
  | error e =>
    unfold AccountAddPage.onListed
    rw [out]
    cases again with
    | true => exact ⟨idle, follows.current, follows.clicked⟩
    | false => exact follows_hidden rfl rfl

/-- One event, of those that the page lets through. -/
theorem Follows.step (follows : page.Follows h) (enabled : page.Enabled event) :
    ∃ next, page.step event = some next ∧ next.Follows (h.record page event) := by
  obtain ⟨-, enabled⟩ := enabled
  cases event with
  | edit field value =>
    have idle : page.probing = none := enabled
    refine ⟨_, rfl, fun call out => ?_, fun shown kept => ?_, follows.clicked⟩
    · cases idle.symm.trans out
    · have shown_ : page.pickerShown = true := shown
      have kept_ : (page.pickerStale || page.pickerShown && decide (field ≠ .displayName)) = false := kept
      rw [Bool.or_eq_false_iff, shown_, Bool.true_and, decide_eq_false_iff_not, not_not] at kept_
      obtain ⟨fresh, rfl⟩ := kept_
      exact follows.current shown_ fresh
  | probe => exact ⟨_, rfl, follows.onProbe⟩
  | retry =>
    refine ⟨_, rfl, ?_, follows.current, follows.clicked⟩
    rintro call ⟨⟩
    rfl
  | toggle idx =>
    obtain ⟨shown, there⟩ := enabled
    obtain ⟨tree, applied, kept⟩ := follows.tick shown (.folder idx) (by rintro i ⟨⟩; exact there)
    refine ⟨{ page with tree }, ?_, kept⟩
    obtain ⟨node, here, set⟩ := Option.bind_eq_some_iff.mp applied
    simp only [AccountAddPage.step, here, Option.bind_eq_bind, Option.bind_some, set]
    rfl
  | selectAll value =>
    obtain ⟨tree, applied, kept⟩ := follows.tick enabled (.all value) (by rintro i ⟨⟩)
    cases applied
    exact ⟨_, rfl, kept⟩
  | submit => exact ⟨_, rfl, follows.onSubmit⟩
  | tested answer =>
    cases answer with
    | ok _ =>
      refine ⟨_, rfl, ?_, follows.current, follows.clicked⟩
      rintro call ⟨⟩
      rfl
    | error _ => exact ⟨_, rfl, follows_hidden rfl rfl⟩
  | listed answer =>
    obtain ⟨asked, again, out⟩ := enabled
    exact ⟨_, rfl, follows.onListed out answer⟩
  | created answer =>
    cases answer with
    | ok _ => exact ⟨_, rfl, follows.calls, follows.current, follows.clicked⟩
    | error _ => exact ⟨_, rfl, follows.calls, follows.current, follows.clicked⟩

theorem follows_of_run (run : AddRun h page) : page.Follows h := by
  induction run with
  | opened => exact fresh_follows
  | event _ enabled stepped ih =>
    obtain ⟨found, ran, follows⟩ := ih.step enabled
    cases ran.symm.trans stepped
    exact follows

/-- Whatever was typed, clicked and answered on the page before, the account that is submitted has the server, the address and
the password with which the last list of folders came, and its folders are those picked by the clicks since then, at least one,
all of them listed and able to be selected, so that the server turns none away. No event that the page lets through panics. -/
theorem submitted_as_listed (run : AddRun h page) :
    (∀ event, page.Enabled event → (page.step event).isSome) ∧
    (page.Enabled .submit → ∃ payload folders tree,
      page.step .submit = some { page with submitError := none, submitting := some payload } ∧
      h.listed = some (⟨payload.server, payload.email, payload.password⟩, folders) ∧
      h.ticks.foldlM FolderTick.apply (FolderTree.build folders).defaultSelectInbox = some tree ∧
      payload.folders = tree.selectedNewFolders ∧ payload.folders ≠ [] ∧
      payload.requests = payload.folders.map (fun f => ⟨f.path, none, specialUseFromString f.specialUse, none⟩) ∧
      ∀ f ∈ payload.folders, ∃ g ∈ folders, g.path = f.path ∧ g.specialUse = f.specialUse ∧ g.noSelect = false) := by
  have follows := follows_of_run run
  refine ⟨fun event enabled => ?_, ?_⟩
  · obtain ⟨next, stepped, -⟩ := follows.step enabled
    exact Option.isSome_iff_exists.mpr ⟨next, stepped⟩
  · rintro ⟨-, shown, -, fresh, counted⟩
    obtain ⟨folders, listed⟩ := follows.current shown fresh
    obtain ⟨asked, folders', listed', clicked, shape⟩ := follows.clicked shown
    cases listed.symm.trans listed'
    have picked : page.payload.folders ≠ [] := fun none_ => by
      apply counted
      rw [← FolderTree.selectedNewFolders_length]
      exact List.length_eq_zero_iff.mpr none_
    have rows := FolderTree.selectedNewFolders_listed shape
    have submitted : page.onSubmit = { page with submitError := none, submitting := some page.payload } :=
      if_neg (by simpa using picked)
    have kept : page.payload.folders.filter (!·.noSelect) = page.payload.folders :=
      List.filter_eq_self.mpr fun f mem => by rw [(rows f mem).1]; rfl
    refine ⟨page.payload, folders, page.tree, congrArg some submitted, listed, clicked, rfl, picked, ?_, fun f mem => (rows f mem).2⟩
    rw [NewAccountDto.requests, kept]

def homeForm : ConnectionForm := ⟨"Home", "mail.home", "993", "Tls", "me@home", "secret", false⟩

def filledIn : AccountAddPage := { fresh with form := homeForm }

private theorem filledIn_run : AddRun ⟨none, []⟩ filledIn := by
  have named := @AddRun.event _ _ (.edit .displayName "Home") _ .opened ⟨rfl, rfl⟩ rfl
  have hosted := @AddRun.event _ _ (.edit .host "mail.home") _ named ⟨rfl, rfl⟩ rfl
  have addressed := @AddRun.event _ _ (.edit .email "me@home") _ hosted ⟨rfl, rfl⟩ rfl
  exact @AddRun.event _ _ (.edit .password "secret") _ addressed ⟨rfl, rfl⟩ rfl

def onlyInbox : List RemoteFolderDto := [⟨"INBOX", none, false, false, none⟩]

def inboxListed : AccountAddPage :=
  { filledIn with
    tree := (FolderTree.build onlyInbox).defaultSelectInbox
    pickerShown := true
    connectedEmail := some "me@home" }

private theorem inboxListed_run : AddRun ⟨some (homeForm.request, onlyInbox), []⟩ inboxListed := by
  have probed := @AddRun.event _ _ .probe filledIn.onProbe filledIn_run ⟨rfl, rfl⟩ rfl
  have tested := @AddRun.event _ _ (.tested (.ok ())) _ probed ⟨rfl, _, rfl⟩ rfl
  exact @AddRun.event _ _ (.listed (.ok onlyInbox)) _ tested ⟨rfl, _, _, rfl⟩ rfl

def inboxUnpicked : AccountAddPage :=
  { inboxListed with tree := ((FolderTick.folder 0).apply inboxListed.tree).getD ⟨[]⟩ }

def allPicked : AccountAddPage := { inboxUnpicked with tree := inboxUnpicked.tree.selectAll true }

private theorem allPicked_run : AddRun ⟨some (homeForm.request, onlyInbox), [.folder 0, .all true]⟩ allPicked := by
  have applied : (FolderTick.folder 0).apply inboxListed.tree = some inboxUnpicked.tree := by decide +kernel
  have unpicked : inboxListed.step (.toggle 0) = some inboxUnpicked := by
    obtain ⟨node, there, set⟩ := Option.bind_eq_some_iff.mp applied
    simp only [step, there, Option.bind_eq_bind, Option.bind_some, set]
    rfl
  have clicked := @AddRun.event _ _ (.toggle 0) inboxUnpicked inboxListed_run ⟨rfl, rfl, by decide +kernel⟩ unpicked
  exact @AddRun.event _ _ (.selectAll true) allPicked clicked ⟨rfl, rfl⟩ rfl

theorem submitted_as_listed_clicked : ∃ payload,
    allPicked.step .submit = some { allPicked with submitError := none, submitting := some payload } ∧
    homeForm.request = ⟨payload.server, payload.email, payload.password⟩ ∧ payload.folders ≠ [] := by
  obtain ⟨payload, folders, -, stepped, listed, -, -, picked, -⟩ :=
    (submitted_as_listed allPicked_run).2 ⟨rfl, rfl, rfl, rfl, by decide +kernel⟩
  injection listed with same
  injection same with asked
  exact ⟨payload, stepped, asked, picked⟩

example : inboxUnpicked.tree.selectedCount = 0 := by decide +kernel

end AccountAddPage

end MailKeep
