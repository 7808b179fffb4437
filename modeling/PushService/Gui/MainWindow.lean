import PushService.Client.ClientApp
import PushService.Gui.FilterModel
import PushService.System.Run

/-!
# The window and its table

The client reports to the window by signals. Those from its own thread are queued, and the window
takes them one by one; those from the thread of the window are handled at once. Each push becomes a
row. The boxes of the filter dialog say which rows are shown: at every time those of the pushes
whose priority is checked, or no priority is, and the same for the category (`visible_of_run`).
-/

namespace PushService

namespace Gui

open Client

/-! ## The filter dialog -/

/-- The boxes of `FiltersDialog`. -/
inductive CheckBox
  | pushPriorityNormal
  | pushPriorityHigh
  | pushPriorityCritical
  | pushCategoryNotification
  | pushCategoryWarning
  | pushCategoryError
  deriving DecidableEq, Repr

namespace CheckBox

def all : List CheckBox :=
  [pushPriorityNormal, pushPriorityHigh, pushPriorityCritical, pushCategoryNotification,
    pushCategoryWarning, pushCategoryError]

theorem mem_all (box : CheckBox) : box ∈ all := by
  cases box <;> decide

/-- `checkboxMapping`: the column and the word of a box. -/
def mapping : CheckBox → ℤ × List Char
  | pushPriorityNormal => (1, "Normal".toList)
  | pushPriorityHigh => (1, "High".toList)
  | pushPriorityCritical => (1, "Critical".toList)
  | pushCategoryNotification => (2, "Notification".toList)
  | pushCategoryWarning => (2, "Warning".toList)
  | pushCategoryError => (2, "Error".toList)

end CheckBox

/-- `FiltersDialog::updateFilter`, up to the arguments of `filterChanged`. The boxes are gone
through in the order of the hash table. -/
def updateFilter (sender : CheckBox) (order : List CheckBox) (checked : CheckBox → Bool) :
    List Char × ℤ × Bool :=
  let filterType := sender.mapping.1
  let selectedTypes :=
    (order.filter fun box ↦ box.mapping.1 == filterType && checked box).map fun box ↦ box.mapping.2
  if selectedTypes.isEmpty then ([], filterType, false)
  else (List.intercalate ['|'] selectedTypes, filterType, true)

/-! ## The rows -/

def pushPriorityToString : PushPriority → List Char
  | .normal => "Normal".toList
  | .high => "High".toList
  | .critical => "Critical".toList

def pushCategoryToString : PushCategory → List Char
  | .notification => "Notification".toList
  | .warning => "Warning".toList
  | .error => "Error".toList

/-- The second source has the name of a category. -/
def pushSourceToString : PushSource → List Char
  | .source1 => "Source1".toList
  | .source2 => "Warning".toList
  | .source3 => "Source3".toList

structure QColor where
  red : UInt8
  green : UInt8
  blue : UInt8
  deriving DecidableEq, Repr

/-- `push_styles`: foreground and background. -/
def pushStyles : List (List Char × QColor × QColor) :=
  [("Error".toList, ⟨255, 0, 0⟩, ⟨255, 200, 200⟩), ("Warning".toList, ⟨0, 0, 0⟩, ⟨255, 255, 200⟩),
    ("Info".toList, ⟨0, 0, 255⟩, ⟨255, 255, 255⟩)]

/-- A row of the table: the texts of its cells, the foreground of the category and the background of
all. -/
structure Row where
  texts : List (List Char)
  typeForeground : Option QColor
  background : Option QColor
  deriving DecidableEq, Repr

/-- The bytes up to the first zero, which ends a C string. -/
def cString (text : Bytes) : Bytes := text.takeWhile (· ≠ 0)

/-- The row for a push, `fromUtf8` being the conversion of Qt. -/
def Row.of (fromUtf8 : Bytes → List Char) (now : List Char) (push : Push) : Row :=
  let style := pushStyles.lookup (pushCategoryToString push.category)
  ⟨[now, pushPriorityToString push.priority, pushCategoryToString push.category,
      pushSourceToString push.source, fromUtf8 (cString push.text)],
    style.map (·.1), style.map (·.2)⟩

/-! ## The window -/

/-- The picture on `label_connection_status`. -/
inductive ConnectionStatus
  | connected
  | disconnected
  deriving DecidableEq, Repr

structure MainWindow where
  /-- The signals that are queued for the window. -/
  signals : List HandlerCall
  checked : CheckBox → Bool
  model : List Row
  proxyModel : MultiFilterProxyModel
  status : ConnectionStatus

namespace MainWindow

def init : MainWindow := ⟨[], fun _ ↦ true, [], .init, .disconnected⟩

/-- The rows that `proxyModel_` lets through, in the order of the model. -/
def visible (fold : Char → Char) (w : MainWindow) : List Row :=
  w.model.filter fun row ↦ w.proxyModel.filterAcceptsRow fold row.texts

/-- The slot for a signal. -/
def handle (fromUtf8 : Bytes → List Char) (now : List Char) (call : HandlerCall) (w : MainWindow) :
    MainWindow :=
  match call with
  | .onPushReceived _ push => { w with model := w.model ++ [Row.of fromUtf8 now push] }
  | .onConnected => { w with status := .connected }
  | .onDisconnected => { w with status := .disconnected }
  -- these only write to the log
  | .onAcceptPush _ | .onReconnect | .onDataSend _ | .onError _ => w

/-- The state of a box changes, and `onFilterChanged` is called. -/
def checkStateChanged (box : CheckBox) (order : List CheckBox) (w : MainWindow) : MainWindow :=
  let checked := fun box' ↦ if box' = box then !w.checked box' else w.checked box'
  let (filterText, column, enabled) := updateFilter box order checked
  { w with
    checked := checked
    proxyModel := w.proxyModel.setColumnFilter column filterText enabled }

inductive Action
  /-- The client emits a signal in its own thread. -/
  | emit (call : HandlerCall)
  /-- The client emits a signal in the thread of the window. -/
  | emitHere (call : HandlerCall) (now : List Char)
  /-- The event loop takes the next signal. -/
  | deliver (now : List Char)
  /-- The user clicks a box; `order` is the order of the hash table. -/
  | checkStateChanged (box : CheckBox) (order : List CheckBox)

/-- A slot has run. -/
structure Handled where
  call : HandlerCall
  now : List Char
  deriving DecidableEq, Repr

def step (fromUtf8 : Bytes → List Char) (w : MainWindow) :
    Action → Option (MainWindow × List Handled)
  | .emit call => some ({ w with signals := w.signals ++ [call] }, [])
  | .emitHere call now => some (w.handle fromUtf8 now call, [⟨call, now⟩])
  | .deliver now =>
    match w.signals with
    | [] => none
    | call :: signals => some ({ w with signals }.handle fromUtf8 now call, [⟨call, now⟩])
  | .checkStateChanged box order =>
    if order.Perm CheckBox.all then some (w.checkStateChanged box order, []) else none

def system (fromUtf8 : Bytes → List Char) : System MainWindow Action Handled where
  step := step fromUtf8

/-! ## What the boxes ask for -/

end MainWindow

namespace CheckBox

variable {checked : CheckBox → Bool} {box : CheckBox}

def ofPriority : PushPriority → CheckBox
  | .normal => pushPriorityNormal
  | .high => pushPriorityHigh
  | .critical => pushPriorityCritical

def ofCategory : PushCategory → CheckBox
  | .notification => pushCategoryNotification
  | .warning => pushCategoryWarning
  | .error => pushCategoryError

/-- The box is checked, or no box for its column is. -/
def asksFor (checked : CheckBox → Bool) (box : CheckBox) : Bool :=
  checked box || all.all fun box' ↦ !(box'.mapping.1 == box.mapping.1 && checked box')

theorem asksFor_iff : asksFor checked box = true ↔
    checked box = true ∨ ∀ box', box'.mapping.1 = box.mapping.1 → checked box' = false := by
  simp [asksFor, mem_all, imp_iff_not_or]

theorem mapping_snd_ne_nil (box : CheckBox) : box.mapping.2 ≠ [] := by
  cases box <;> decide

theorem not_mem_mapping_snd (box : CheckBox) : '|' ∉ box.mapping.2 := by
  cases box <;> decide

/-- Qt folds the letters of ASCII as usual. -/
def FoldsAscii (fold : Char → Char) : Prop := ∀ c : Char, c.toNat < 128 → fold c = c.toLower

/-- No word occurs in another one for the same column. -/
theorem containsFolded_mapping_iff {fold : Char → Char} (hfold : FoldsAscii fold) {box' : CheckBox}
    (hcol : box'.mapping.1 = box.mapping.1) :
    containsFolded fold box.mapping.2 box'.mapping.2 = true ↔ box' = box := by
  have hmap : ∀ b : CheckBox, b.mapping.2.map fold = b.mapping.2.map Char.toLower := by
    intro b
    have hascii : b.mapping.2.all (fun c ↦ decide (c.toNat < 128)) = true := by cases b <;> rfl
    refine List.map_congr_left fun c hc ↦ hfold c ?_
    simpa using List.all_eq_true.mp hascii c hc
  rw [containsFolded, hmap, hmap]
  revert hcol
  cases box <;> cases box' <;> decide

end CheckBox

theorem splitWords_intercalate {words : List (List Char)} (hne : words ≠ [])
    (hword : ∀ word ∈ words, word ≠ [] ∧ '|' ∉ word) :
    splitWords (List.intercalate ['|'] words) = words := by
  rw [splitWords, List.splitOn_intercalate '|' (fun word h ↦ (hword word h).2) hne,
    List.filter_eq_self]
  intro word hmem
  simpa using (hword word hmem).1

namespace MainWindow

variable {w w' : MainWindow} {fold : Char → Char} {fromUtf8 : Bytes → List Char}

/-- The filter of the column fits the boxes: its words are those of the checked boxes, and without
one the boxes for the column are all checked or all unchecked. -/
def Fits (checked : CheckBox → Bool) (m : MultiFilterProxyModel) (column : ℤ) : Prop :=
  match m.filters.lookup column with
  | none => ∃ b, ∀ box : CheckBox, box.mapping.1 = column → checked box = b
  | some words =>
    (∀ word, word ∈ words ↔ ∃ box : CheckBox, box.mapping.1 = column ∧ checked box ∧
      box.mapping.2 = word) ∧
      words ≠ []

theorem fits_init (column : ℤ) : Fits init.checked init.proxyModel column :=
  ⟨true, fun _ _ ↦ rfl⟩

theorem Fits.congr {checked checked' : CheckBox → Bool} {m m' : MultiFilterProxyModel} {column : ℤ}
    (h : Fits checked m column) (hm : m'.filters.lookup column = m.filters.lookup column)
    (hchecked : ∀ box : CheckBox, box.mapping.1 = column → checked' box = checked box) :
    Fits checked' m' column := by
  rw [Fits, hm]
  rw [Fits] at h
  cases hlookup : m.filters.lookup column with
  | none =>
    rw [hlookup] at h
    obtain ⟨b, hb⟩ := h
    exact ⟨b, fun box hbox ↦ (hchecked box hbox).trans (hb box hbox)⟩
  | some words =>
    rw [hlookup] at h
    refine ⟨fun word ↦ (h.1 word).trans (exists_congr fun box ↦ ?_), h.2⟩
    exact and_congr_right fun hbox ↦ by rw [hchecked box hbox]

/-- The filter that the dialog asks for fits. -/
theorem fits_updateFilter {sender : CheckBox} {order : List CheckBox} {checked : CheckBox → Bool}
    {m : MultiFilterProxyModel} {filterText : List Char} {column : ℤ} {enabled : Bool}
    (horder : order.Perm CheckBox.all)
    (h : updateFilter sender order checked = (filterText, column, enabled)) :
    column = sender.mapping.1 ∧
      Fits checked (m.setColumnFilter column filterText enabled) column := by
  rw [updateFilter] at h
  set selectedTypes := (order.filter fun box ↦ box.mapping.1 == sender.mapping.1 && checked box).map
    fun box ↦ box.mapping.2 with hselected
  have hmem : ∀ word, word ∈ selectedTypes ↔
      ∃ box : CheckBox, box.mapping.1 = sender.mapping.1 ∧ checked box ∧ box.mapping.2 = word := by
    intro word
    simp [hselected, horder.mem_iff, CheckBox.mem_all, and_assoc]
  rw [Fits, MultiFilterProxyModel.lookup_setColumnFilter, if_pos rfl]
  split_ifs at h with hempty
  · obtain ⟨rfl, rfl, rfl⟩ := h
    refine ⟨rfl, false, fun box hbox ↦ ?_⟩
    by_contra hchecked
    have hword := (hmem box.mapping.2).mpr ⟨box, hbox, by simpa using hchecked, rfl⟩
    rw [List.isEmpty_iff.mp hempty] at hword
    exact List.not_mem_nil hword
  · obtain ⟨rfl, rfl, rfl⟩ := h
    have hne : selectedTypes ≠ [] := by simpa using hempty
    have hsplit : splitWords (List.intercalate ['|'] selectedTypes) = selectedTypes := by
      refine splitWords_intercalate hne fun word hword ↦ ?_
      obtain ⟨box, -, -, rfl⟩ := (hmem word).mp hword
      exact ⟨box.mapping_snd_ne_nil, box.not_mem_mapping_snd⟩
    have htext : List.intercalate ['|'] selectedTypes ≠ [] := by
      intro hnil
      rw [hnil] at hsplit
      exact hne hsplit.symm
    rw [if_pos (by simpa using htext), hsplit]
    exact ⟨rfl, hmem, hne⟩

theorem fits_checkStateChanged {order : List CheckBox} (horder : order.Perm CheckBox.all)
    (h : ∀ column, Fits w.checked w.proxyModel column) (box : CheckBox) (column : ℤ) :
    Fits (w.checkStateChanged box order).checked (w.checkStateChanged box order).proxyModel
      column := by
  obtain ⟨filterText, column', enabled, hfilter⟩ : ∃ filterText column enabled,
      updateFilter box order (fun box' ↦ if box' = box then !w.checked box' else w.checked box')
        = (filterText, column, enabled) := ⟨_, _, _, rfl⟩
  have hstate : w.checkStateChanged box order = { w with
      checked := fun box' ↦ if box' = box then !w.checked box' else w.checked box'
      proxyModel := w.proxyModel.setColumnFilter column' filterText enabled } := by
    rw [checkStateChanged, hfilter]
  obtain ⟨hcolumn, hfits⟩ := fits_updateFilter (m := w.proxyModel) horder hfilter
  rw [hstate]
  by_cases heq : column' = column
  · rwa [← heq]
  · -- the boxes for the other columns are as they were
    refine (h column).congr ?_ fun box' hbox' ↦ if_neg ?_
    · rw [MultiFilterProxyModel.lookup_setColumnFilter, if_neg heq]
    · rintro rfl
      exact heq (hcolumn.trans hbox')

/-- A filter that fits lets through what the boxes ask for. -/
theorem Fits.passes_iff (hfold : CheckBox.FoldsAscii fold) {checked : CheckBox → Bool}
    {m : MultiFilterProxyModel} {box : CheckBox} (h : Fits checked m box.mapping.1) :
    (∀ words, m.filters.lookup box.mapping.1 = some words →
      ∃ word ∈ words, containsFolded fold box.mapping.2 word = true) ↔
        CheckBox.asksFor checked box = true := by
  rw [Fits] at h
  rw [CheckBox.asksFor_iff]
  cases hlookup : m.filters.lookup box.mapping.1 with
  | none =>
    rw [hlookup] at h
    obtain ⟨b, hb⟩ := h
    refine ⟨fun _ ↦ ?_, fun _ words hwords ↦ absurd hwords (by simp)⟩
    cases b with
    | true => exact .inl (hb box rfl)
    | false => exact .inr hb
  | some words =>
    rw [hlookup] at h
    obtain ⟨hwords, hne⟩ := h
    obtain ⟨first, hfirst⟩ := List.exists_mem_of_ne_nil words hne
    obtain ⟨box₁, hcol₁, hchecked₁, -⟩ := (hwords first).mp hfirst
    constructor
    · intro hall
      obtain ⟨word, hword, hcontains⟩ := hall words rfl
      obtain ⟨box', hcol, hchecked, rfl⟩ := (hwords word).mp hword
      obtain rfl := (CheckBox.containsFolded_mapping_iff hfold hcol).mp hcontains
      exact .inl hchecked
    · rintro (hchecked | hnone) _ ⟨rfl⟩
      · exact ⟨_, (hwords _).mpr ⟨box, rfl, hchecked, rfl⟩,
          (CheckBox.containsFolded_mapping_iff hfold rfl).mpr rfl⟩
      · rw [hnone box₁ hcol₁] at hchecked₁
        exact absurd hchecked₁ (by simp)

/-- The boxes ask for the priority and the category of the push. -/
def shows (checked : CheckBox → Bool) (push : Push) : Bool :=
  CheckBox.asksFor checked (.ofPriority push.priority) &&
    CheckBox.asksFor checked (.ofCategory push.category)

theorem data_priority (fromUtf8 : Bytes → List Char) (now : List Char) (push : Push) :
    MultiFilterProxyModel.data (Row.of fromUtf8 now push).texts 1
      = (CheckBox.ofPriority push.priority).mapping.2 := by
  cases h : push.priority <;> simp [Row.of, MultiFilterProxyModel.data, h] <;> rfl

theorem data_category (fromUtf8 : Bytes → List Char) (now : List Char) (push : Push) :
    MultiFilterProxyModel.data (Row.of fromUtf8 now push).texts 2
      = (CheckBox.ofCategory push.category).mapping.2 := by
  cases h : push.category <;> simp [Row.of, MultiFilterProxyModel.data, h] <;> rfl

theorem ofPriority_mapping (p : PushPriority) : (CheckBox.ofPriority p).mapping.1 = 1 := by
  cases p <;> rfl

theorem ofCategory_mapping (c : PushCategory) : (CheckBox.ofCategory c).mapping.1 = 2 := by
  cases c <;> rfl

theorem filterAcceptsRow_of_fits (hfold : CheckBox.FoldsAscii fold)
    (h : ∀ column, Fits w.checked w.proxyModel column) (now : List Char) (push : Push) :
    w.proxyModel.filterAcceptsRow fold (Row.of fromUtf8 now push).texts = shows w.checked push := by
  rw [Bool.eq_iff_iff, MultiFilterProxyModel.filterAcceptsRow_iff, shows, Bool.and_eq_true,
    ← (h _).passes_iff hfold, ← (h _).passes_iff hfold, ofPriority_mapping, ofCategory_mapping,
    ← data_priority fromUtf8 now, ← data_category fromUtf8 now]
  refine ⟨fun hall ↦ ⟨hall 1, hall 2⟩, fun ⟨hpriority, hcategory⟩ column words hlookup ↦ ?_⟩
  -- a column with a filter has a box
  have hfits := h column
  rw [Fits, hlookup] at hfits
  obtain ⟨word, hword⟩ := List.exists_mem_of_ne_nil words hfits.2
  obtain ⟨box, rfl, -, -⟩ := (hfits.1 word).mp hword
  obtain hcol | hcol : box.mapping.1 = 1 ∨ box.mapping.1 = 2 := by cases box <;> decide
  · rw [hcol] at hlookup ⊢
    exact hpriority words hlookup
  · rw [hcol] at hlookup ⊢
    exact hcategory words hlookup

/-! ## Runs -/

/-- The push of a signal. -/
def push? : HandlerCall → Option Push
  | .onPushReceived _ push => some push
  | _ => none

/-- The row that the slot adds. -/
def Handled.row? (fromUtf8 : Bytes → List Char) (e : Handled) : Option Row :=
  (push? e.call).map (Row.of fromUtf8 e.now)

theorem handle_model (now : List Char) (call : HandlerCall) :
    (w.handle fromUtf8 now call).model
      = w.model ++ [⟨call, now⟩].filterMap (Handled.row? fromUtf8) := by
  cases call <;> simp [handle, Handled.row?, push?]

theorem handle_frame (fromUtf8 : Bytes → List Char) (now : List Char) (call : HandlerCall) :
    (w.handle fromUtf8 now call).signals = w.signals ∧
      (w.handle fromUtf8 now call).checked = w.checked ∧
      (w.handle fromUtf8 now call).proxyModel = w.proxyModel := by
  cases call <;> exact ⟨rfl, rfl, rfl⟩

/-- What a step can do. -/
theorem step_cases {a : Action} {es : List Handled} (hstep : step fromUtf8 w a = some (w', es)) :
    (∃ call, a = .emit call ∧ w' = { w with signals := w.signals ++ [call] } ∧ es = []) ∨
    (∃ call now, a = .emitHere call now ∧ w' = w.handle fromUtf8 now call ∧ es = [⟨call, now⟩]) ∨
    (∃ now call signals, a = .deliver now ∧ w.signals = call :: signals ∧
      w' = { w with signals }.handle fromUtf8 now call ∧ es = [⟨call, now⟩]) ∨
    ∃ box order, a = .checkStateChanged box order ∧ order.Perm CheckBox.all ∧
      w' = w.checkStateChanged box order ∧ es = [] := by
  cases a with
  | emit call =>
    obtain ⟨rfl, rfl⟩ := Prod.mk.inj (Option.some_inj.mp hstep)
    exact .inl ⟨call, rfl, rfl, rfl⟩
  | emitHere call now =>
    obtain ⟨rfl, rfl⟩ := Prod.mk.inj (Option.some_inj.mp hstep)
    exact .inr (.inl ⟨call, now, rfl, rfl, rfl⟩)
  | deliver now =>
    rw [step] at hstep
    split at hstep
    · cases hstep
    · rename_i call signals hsignals
      obtain ⟨rfl, rfl⟩ := Prod.mk.inj (Option.some_inj.mp hstep)
      exact .inr (.inr (.inl ⟨now, call, signals, rfl, hsignals, rfl, rfl⟩))
  | checkStateChanged box order =>
    rw [step] at hstep
    split_ifs at hstep with horder
    obtain ⟨rfl, rfl⟩ := Prod.mk.inj (Option.some_inj.mp hstep)
    exact .inr (.inr (.inr ⟨box, order, rfl, horder, rfl, rfl⟩))

/-- The filters fit the boxes, and the rows are those of the pushes so far. -/
structure Tabulates (fromUtf8 : Bytes → List Char) (w : MainWindow) (h : List Handled) : Prop where
  fits : ∀ column, Fits w.checked w.proxyModel column
  model : w.model = h.filterMap (Handled.row? fromUtf8)

theorem Tabulates.handle {h : List Handled} (hI : w.Tabulates fromUtf8 h) (now : List Char)
    (call : HandlerCall) :
    (w.handle fromUtf8 now call).Tabulates fromUtf8 (h ++ [⟨call, now⟩]) := by
  obtain ⟨-, hchecked, hproxy⟩ := handle_frame (w := w) fromUtf8 now call
  refine ⟨?_, ?_⟩
  · rw [hchecked, hproxy]
    exact hI.fits
  · rw [handle_model, hI.model, List.filterMap_append]

theorem Tabulates.step {a : Action} {h es : List Handled} (hI : w.Tabulates fromUtf8 h)
    (hstep : step fromUtf8 w a = some (w', es)) : w'.Tabulates fromUtf8 (h ++ es) := by
  obtain ⟨call, -, rfl, rfl⟩ | ⟨call, now, -, rfl, rfl⟩ | ⟨now, call, signals, -, -, rfl, rfl⟩ |
    ⟨box, order, -, horder, rfl, rfl⟩ := step_cases hstep
  · exact ⟨hI.fits, by simpa using hI.model⟩
  · exact hI.handle now call
  · have htaken : Tabulates fromUtf8 { w with signals } h := ⟨hI.fits, hI.model⟩
    exact htaken.handle now call
  · rw [List.append_nil]
    exact ⟨fits_checkStateChanged horder hI.fits box, hI.model⟩

/-- The pushes whose slots have run, with the times of the rows. -/
def received (h : List Handled) : List (List Char × Push) :=
  h.filterMap fun e ↦ (push? e.call).map (e.now, ·)

/-- The push that the client reports in its own thread. -/
def Action.push? : Action → Option Push
  | .emit call => MainWindow.push? call
  | _ => none

def reported (as : List Action) : List Push := as.filterMap Action.push?

/-- The state of a box after the action. -/
def Action.click (box : CheckBox) (before : Bool) : Action → Bool
  | .checkStateChanged box' _ => if box = box' then !before else before
  | _ => before

/-- The boxes that are checked after the clicks of a run. -/
def clicked (as : List Action) (box : CheckBox) : Bool := as.foldl (Action.click box) true

theorem checked_of_step {a : Action} {es : List Handled} (hstep : step fromUtf8 w a = some (w', es))
    (box : CheckBox) : w'.checked box = a.click box (w.checked box) := by
  obtain ⟨call, rfl, rfl, -⟩ | ⟨call, now, rfl, rfl, -⟩ | ⟨now, call, signals, rfl, -, rfl, -⟩ |
    ⟨box', order, rfl, -, rfl, -⟩ := step_cases hstep
  · rfl
  · rw [(handle_frame fromUtf8 now call).2.1]
    rfl
  · rw [(handle_frame fromUtf8 now call).2.1]
    rfl
  · rfl

theorem checked_of_run {as : List Action} {h : List Handled}
    (hrun : (system fromUtf8).run w as = some (w', h)) (box : CheckBox) :
    w'.checked box = as.foldl (Action.click box) (w.checked box) := by
  induction as generalizing w h with
  | nil =>
    obtain ⟨rfl, -⟩ : w = w' ∧ [] = h := by simpa using hrun
    rfl
  | cons a as ih =>
    obtain ⟨t, es, fs, hstep, hrest, -⟩ := System.run_cons_eq_some.mp hrun
    rw [List.foldl_cons, ih hrest, checked_of_step hstep]

theorem received_of_step {a : Action} {es : List Handled}
    (hstep : step fromUtf8 w a = some (w', es))
    (hloop : ∀ call now, a = .emitHere call now → push? call = none) :
    (received es).map Prod.snd ++ w'.signals.filterMap push? =
      w.signals.filterMap push? ++ a.push?.toList := by
  obtain ⟨call, rfl, rfl, rfl⟩ | ⟨call, now, rfl, rfl, rfl⟩ |
    ⟨now, call, signals, rfl, hsignals, rfl, rfl⟩ | ⟨box, order, rfl, -, rfl, rfl⟩ :=
      step_cases hstep
  · cases hpush : push? call <;> simp [received, Action.push?, hpush]
  · rw [(handle_frame fromUtf8 now call).1]
    simp [received, Action.push?, hloop call now rfl]
  · rw [(handle_frame fromUtf8 now call).1, hsignals]
    cases hpush : push? call <;> simp [received, Action.push?, hpush]
  · simp [received, Action.push?, checkStateChanged]

/-- The pushes go through the queue in order. -/
theorem received_of_run {as : List Action} {h : List Handled}
    (hrun : (system fromUtf8).run w as = some (w', h))
    (hloop : ∀ call now, Action.emitHere call now ∈ as → push? call = none) :
    (received h).map Prod.snd ++ w'.signals.filterMap push? =
      w.signals.filterMap push? ++ reported as := by
  induction as generalizing w h with
  | nil =>
    obtain ⟨rfl, rfl⟩ : w = w' ∧ [] = h := by simpa using hrun
    simp [received, reported]
  | cons a as ih =>
    obtain ⟨t, es, fs, hstep, hrest, rfl⟩ := System.run_cons_eq_some.mp hrun
    have hhead := received_of_step hstep fun call now heq ↦
      hloop call now (heq ▸ List.mem_cons_self)
    have htail := ih hrest fun call now hmem ↦ hloop call now (List.mem_cons_of_mem a hmem)
    have hreported : reported (a :: as) = a.push?.toList ++ reported as := by
      rw [reported, reported, List.filterMap_cons]
      cases a.push? <;> rfl
    calc (received (es ++ fs)).map Prod.snd ++ w'.signals.filterMap push?
        = (received es).map Prod.snd
          ++ ((received fs).map Prod.snd ++ w'.signals.filterMap push?) := by
          rw [received, List.filterMap_append, List.map_append, List.append_assoc]
          rfl
      _ = w.signals.filterMap push? ++ reported (a :: as) := by
          rw [htail, ← List.append_assoc, hhead, List.append_assoc, hreported]

/-- The table shows the pushes taken that the boxes ask for. -/
theorem visible_eq {fold : Char → Char} (hfold : CheckBox.FoldsAscii fold) {as : List Action}
    {h : List Handled} (hrun : (system fromUtf8).run init as = some (w, h)) :
    w.visible fold = ((received h).filter fun r ↦ shows (clicked as) r.2).map
      (fun r ↦ Row.of fromUtf8 r.1 r.2) := by
  have hI := System.run_invariant (I := Tabulates fromUtf8) (h := []) (fun hI hst ↦ hI.step hst)
    ⟨fits_init, rfl⟩ hrun
  have hchecked : w.checked = clicked as := funext (checked_of_run hrun)
  rw [List.nil_append] at hI
  have hmodel : w.model = (received h).map fun r ↦ Row.of fromUtf8 r.1 r.2 := by
    rw [hI.model, received, List.map_filterMap]
    refine List.filterMap_congr fun e _ ↦ ?_
    cases hpush : push? e.call <;> simp [Handled.row?, hpush]
  rw [visible, hmodel, List.filter_map]
  refine congrArg _ (List.filter_congr fun r _ ↦ ?_)
  rw [Function.comp_apply, filterAcceptsRow_of_fits hfold hI.fits, hchecked]

/-- **The rows that are shown.** Whatever the user clicks and whatever comes in, the table shows the
rows of the pushes taken so far, in order, whose priority is checked, or no priority is, and whose
category is, or no category; and the pushes taken are those reported, but for the last ones, which
are queued. -/
theorem visible_of_run (fold : Char → Char) (fromUtf8 : Bytes → List Char)
    (hfold : CheckBox.FoldsAscii fold) (as : List Action) (w : MainWindow) (h : List Handled)
    (hrun : (system fromUtf8).run init as = some (w, h))
    (hloop : ∀ call now, Action.emitHere call now ∈ as → push? call = none) :
    w.visible fold = ((received h).filter fun r ↦ shows (clicked as) r.2).map
        (fun r ↦ Row.of fromUtf8 r.1 r.2) ∧
      (received h).map Prod.snd ++ w.signals.filterMap push? = reported as :=
  ⟨visible_eq hfold hrun, received_of_run hrun hloop⟩

/-- Two pushes come in, and meanwhile the boxes for the priority are unchecked one by one. -/
def clicksRun : List Action :=
  [.emit (.onPushReceived 1 ⟨.normal, .warning, .source2, [104, 105]⟩),
    .checkStateChanged .pushPriorityNormal CheckBox.all, .deliver [],
    .emit (.onPushReceived 2 ⟨.high, .error, .source1, []⟩), .deliver [],
    .checkStateChanged .pushPriorityHigh CheckBox.all.reverse,
    .checkStateChanged .pushPriorityCritical CheckBox.all]

theorem visible_of_run_clicksRun : ∃ w h,
    (system fun _ ↦ []).run init clicksRun = some (w, h) ∧
      w.visible Char.toLower = [Row.of (fun _ ↦ []) [] ⟨.normal, .warning, .source2, [104, 105]⟩,
        Row.of (fun _ ↦ []) [] ⟨.high, .error, .source1, []⟩] := by
  have hrun : (system fun _ ↦ []).run init clicksRun = some (_, _) := rfl
  have hvisible := visible_of_run Char.toLower (fun _ ↦ []) (fun _ _ ↦ rfl) clicksRun _ _ hrun
    (by simp [clicksRun])
  exact ⟨_, _, hrun, hvisible.1⟩

/-! ## The picture -/

/-- The picture that the slot sets. -/
def status? : HandlerCall → Option ConnectionStatus
  | .onConnected => some .connected
  | .onDisconnected => some .disconnected
  | _ => none

def Action.status? : Action → Option ConnectionStatus
  | .emit call => MainWindow.status? call
  | .emitHere call _ => MainWindow.status? call
  | _ => none

/-- The last of the pictures that are set, or queued to be set. -/
def lastStatus (w : MainWindow) : ConnectionStatus :=
  (w.signals.filterMap status?).getLast?.getD w.status

/-- No connection or disconnection is handled at once while one is queued. -/
def TakesTurns (w : MainWindow) (a : Action) : Prop :=
  match a with
  | .emitHere call _ => (status? call).isSome → w.signals.filterMap status? = []
  | _ => True

instance decidableTakesTurns (w : MainWindow) (a : Action) : Decidable (TakesTurns w a) :=
  match a with
  | .emit _ => isTrue trivial
  | .emitHere call _ =>
    inferInstanceAs (Decidable ((status? call).isSome → w.signals.filterMap status? = []))
  | .deliver _ => isTrue trivial
  | .checkStateChanged _ _ => isTrue trivial

theorem handle_status (now : List Char) (call : HandlerCall) :
    (w.handle fromUtf8 now call).status = (status? call).getD w.status := by
  cases call <;> rfl

theorem lastStatus_of_step {a : Action} {es : List Handled} (hturns : TakesTurns w a)
    (hstep : step fromUtf8 w a = some (w', es)) : w'.lastStatus = a.status?.getD w.lastStatus := by
  obtain ⟨call, rfl, rfl, -⟩ | ⟨call, now, rfl, rfl, -⟩ |
    ⟨now, call, signals, rfl, hsignals, rfl, -⟩ | ⟨box, order, rfl, -, rfl, -⟩ := step_cases hstep
  · cases hstatus : status? call <;> simp [lastStatus, Action.status?, hstatus]
  · rw [lastStatus, (handle_frame fromUtf8 now call).1, handle_status, Action.status?]
    cases hstatus : status? call with
    | none => rfl
    | some status =>
      have hempty : w.signals.filterMap status? = [] := hturns (by simp [hstatus])
      rw [hempty]
      rfl
  · rw [lastStatus, (handle_frame fromUtf8 now call).1, handle_status, lastStatus, hsignals]
    cases hstatus : status? call with
    | none => simp [Action.status?, hstatus]
    | some status =>
      rw [List.filterMap_cons_some hstatus, List.getLast?_cons]
      rfl
  · rfl

theorem lastStatus_of_run {as : List Action} {h : List Handled}
    (hturns : (system fromUtf8).Obeys TakesTurns w as)
    (hrun : (system fromUtf8).run w as = some (w', h)) :
    w'.lastStatus = (as.filterMap Action.status?).getLast?.getD w.lastStatus := by
  induction as generalizing w h with
  | nil =>
    obtain ⟨rfl, -⟩ : w = w' ∧ [] = h := by simpa using hrun
    rfl
  | cons a as ih =>
    obtain ⟨t, es, fs, hstep, hrest, -⟩ := System.run_cons_eq_some.mp hrun
    rw [ih (hturns.2 _ hstep) hrest, lastStatus_of_step hturns.1 hstep, List.filterMap_cons]
    cases a.status? with
    | none => rfl
    | some status =>
      rw [List.getLast?_cons]
      cases (as.filterMap Action.status?).getLast? <;> rfl

/-- **The picture settles.** If no connection or disconnection is reported in the thread of the
window while one is queued, then with no signal left the picture shows the last one reported. -/
theorem status_settles (as : List Action) (w : MainWindow) (h : List Handled)
    (hrun : (system fromUtf8).run init as = some (w, h))
    (hturns : (system fromUtf8).Obeys TakesTurns init as) (hempty : w.signals = []) :
    w.status = (as.filterMap Action.status?).getLast?.getD .disconnected := by
  have hlast := lastStatus_of_run hturns hrun
  rw [lastStatus, hempty] at hlast
  exact hlast

/-- The client connects, and the user disconnects it. -/
def thereAndBackRun : List Action :=
  [.emit .onConnected, .deliver [], .emitHere .onDisconnected []]

theorem status_settles_thereAndBackRun : ∃ w h,
    (system fun _ ↦ []).run init thereAndBackRun = some (w, h) ∧ w.status = .disconnected := by
  have hrun : (system fun _ ↦ []).run init thereAndBackRun = some (_, _) := rfl
  exact ⟨_, _, hrun, status_settles thereAndBackRun _ _ hrun (by decide) rfl⟩

/-- The user is faster than the queue, and the window goes on showing a connection. -/
example : ((system fun _ ↦ []).run init
    [.emit .onConnected, .emitHere .onDisconnected [], .deliver []]).map (·.1.status)
      = some .connected := rfl

end MainWindow

end Gui

end PushService
