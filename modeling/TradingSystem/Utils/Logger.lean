import Mathlib

/-!
# `Logger`: formatted messages

`utils/logger.hpp`. `log` goes through a format string from left to right and pushes what it prints piece by
piece: a `%%` is a `%`, and any other `%` a placeholder for the next argument. It is written twice, once for a
string with arguments left and once for a string without, and the second copy knows no `%%`. So a message is
right exactly if no `%%` stands behind its last placeholder (`log_prints_iff`).

A `const char*` is the list of its characters up to the terminating zero, a value to be printed what
`operator<<` makes of it (`print`). How the strings get from the queue into the file is left to `SpscQueue`;
here `loggerQueue` is everything that was ever pushed. `pushVal` waits for room, so that a call of `log` returns
only if there is room for each of its strings when it comes to it; a queue that is full once stays full
(`SpscHistory.full_waits`). What is proved is of the calls that return.
-/

namespace TradingSystem

structure Logger where
  /-- the strings pushed, oldest first -/
  loggerQueue : List (List Char)

namespace Logger

variable {α : Type}

/-- Push a value as a string, unless that is empty. -/
def pushVal (logger : Logger) (newVal : List Char) : Logger :=
  if newVal = [] then logger else { logger with loggerQueue := logger.loggerQueue ++ [newVal] }

/-- `log(text)`. -/
def logText (logger : Logger) : List Char → Logger
  | [] => logger
  | c :: text => (logger.pushVal [c]).logText text

/-- `log(text, value, args...)`. -/
def log (print : α → List Char) (logger : Logger) : List Char → List α → Logger
  | text, [] => logger.logText text
  | [], _ :: _ => logger
  | '%' :: '%' :: text, value :: args => (logger.pushVal ['%']).log print text (value :: args)
  | '%' :: text, value :: args => (logger.pushVal (print value)).log print text args
  | c :: text, value :: args => (logger.pushVal [c]).log print text (value :: args)

/-- Everything that was pushed, one string behind the other. -/
def printed (logger : Logger) : List Char := logger.loggerQueue.flatten

/-! ## What a format string says -/

/-- A piece of a format string. -/
inductive Piece where
  | char (c : Char)
  /-- `%%` -/
  | pair
  /-- a `%` that is not part of a pair -/
  | placeholder
  deriving DecidableEq

/-- The pieces of a format string, read from left to right. -/
def pieces : List Char → List Piece
  | [] => []
  | '%' :: '%' :: text => .pair :: pieces text
  | '%' :: text => .placeholder :: pieces text
  | c :: text => .char c :: pieces text

/-- The pieces with each pair as one `%`, and each placeholder as the text of its argument. -/
def fill (print : α → List Char) : List Piece → List α → List Char
  | [], _ => []
  | .char c :: ps, args => c :: fill print ps args
  | .pair :: ps, args => '%' :: fill print ps args
  | .placeholder :: ps, [] => fill print ps []
  | .placeholder :: ps, value :: args => print value ++ fill print ps args

def placeholders (text : List Char) : Nat := (pieces text).count .placeholder

/-- **The condition**: behind every pair there is a placeholder. -/
def PairsBefore (ps : List Piece) : Prop :=
  ∀ pre post, ps = pre ++ .pair :: post → .placeholder ∈ post

/-! ## What is printed -/

variable {print : α → List Char} {logger : Logger} {text : List Char} {ps : List Piece} {p : Piece}
  {args : List α}

@[simp] theorem printed_pushVal (newVal : List Char) :
    (logger.pushVal newVal).printed = logger.printed ++ newVal := by
  unfold pushVal printed
  split
  · next hempty => rw [hempty, List.append_nil]
  · rw [List.flatten_append, List.flatten_singleton]

/-- **Without arguments** the text is printed as it is. -/
theorem printed_logText : (logger.logText text).printed = logger.printed ++ text := by
  induction text generalizing logger with
  | nil => exact (List.append_nil _).symm
  | cons c text ih =>
    rw [logText, ih, printed_pushVal, List.append_assoc]
    rfl

/-- A pair is two characters, any piece else one. -/
theorem length_text : text.length = (pieces text).length + (pieces text).count .pair := by
  fun_induction pieces text with
  | case1 => rfl
  | case2 text ih => simp [ih]; omega
  | case3 text _ ih => simp [ih]; omega
  | case4 c text _ _ ih => simp [ih]; omega

theorem length_fill (h : ps.count .placeholder = 0) : (fill print ps []).length = ps.length := by
  induction ps with
  | nil => rfl
  | cons p ps ih =>
    cases p with
    | char c => simpa [fill] using ih (by simpa using h)
    | pair => simpa [fill] using ih (by simpa using h)
    | placeholder => simp at h

theorem fill_eq_self (hplaceholder : .placeholder ∉ pieces text) (hpair : .pair ∉ pieces text) :
    fill print (pieces text) [] = text := by
  fun_induction pieces text with
  | case1 => rfl
  | case2 text ih => simp at hpair
  | case3 text _ ih => simp at hplaceholder
  | case4 c text _ _ ih =>
    rw [fill, ih]
    · exact fun hmem => hplaceholder (List.mem_cons_of_mem _ hmem)
    · exact fun hmem => hpair (List.mem_cons_of_mem _ hmem)

theorem pairsBefore_cons :
    PairsBefore (p :: ps) ↔ (p = .pair → .placeholder ∈ ps) ∧ PairsBefore ps := by
  constructor
  · intro h
    constructor
    · rintro rfl
      exact h [] ps rfl
    · intro pre post hps
      exact h (p :: pre) post (by rw [hps]; rfl)
  · rintro ⟨hhead, htail⟩ pre post hps
    cases pre with
    | nil =>
      obtain ⟨hp, rfl⟩ := List.cons.inj hps
      exact hhead hp
    | cons q pre =>
      obtain ⟨-, hps'⟩ := List.cons.inj hps
      exact htail pre post hps'

/-- Without placeholders the condition is that there is no pair. -/
theorem pairsBefore_iff (h : .placeholder ∉ ps) : PairsBefore ps ↔ .pair ∉ ps := by
  constructor
  · intro hbefore hpair
    obtain ⟨pre, post, hps⟩ := List.append_of_mem hpair
    have hmem := hbefore pre post hps
    exact h (by rw [hps]; simp [hmem])
  · intro hpair pre post hps
    exact absurd (by rw [hps]; simp) hpair

/-- A text without placeholders is what it prints exactly if there is no pair: each pair is one character
too many. -/
theorem fill_nil_iff (h : .placeholder ∉ pieces text) :
    text = fill print (pieces text) [] ↔ PairsBefore (pieces text) := by
  rw [pairsBefore_iff h]
  constructor
  · intro heq
    have hlength := congrArg List.length heq
    rw [length_fill (List.count_eq_zero.mpr h), length_text] at hlength
    exact List.count_eq_zero.mp (by omega)
  · intro hpair
    exact (fill_eq_self h hpair).symm

/-- **When a message is right**: with as many arguments as there are placeholders, what a call that returns
(one that always finds room in the queue) has printed is the format string with each `%%` as `%` and each
placeholder as its argument, exactly if no `%%` stands behind the last placeholder. -/
theorem log_prints_iff (print : α → List Char) (logger : Logger) (text : List Char) (args : List α)
    (hargs : args.length = placeholders text) :
    (logger.log print text args).printed = logger.printed ++ fill print (pieces text) args ↔
      PairsBefore (pieces text) := by
  fun_induction log print logger text args with
  | case1 logger text =>
    rw [printed_logText, List.append_cancel_left_eq]
    exact fill_nil_iff (List.count_eq_zero.mp hargs.symm)
  | case2 logger value args => simp [placeholders, pieces] at hargs
  | case3 logger text value args ih =>
    -- the argument that is left has its placeholder behind the pair
    have hpieces : pieces ('%' :: '%' :: text) = .pair :: pieces text := rfl
    have hcount : (value :: args).length = placeholders text := by
      rw [hargs, placeholders, hpieces, List.count_cons_of_ne (by decide)]
      rfl
    have hbehind : .placeholder ∈ pieces text := by
      apply List.count_pos_iff.mp
      show 0 < placeholders text
      rw [← hcount, List.length_cons]
      omega
    have hih := ih hcount
    rw [printed_pushVal, List.append_assoc] at hih
    rw [hpieces, pairsBefore_cons, fill]
    simpa [hbehind] using hih
  | case4 logger text value args hpair ih =>
    have hpieces : pieces ('%' :: text) = .placeholder :: pieces text := by
      rw [pieces]
      exact hpair
    have hcount : args.length = placeholders text := by
      rw [placeholders, hpieces, List.count_cons_self, List.length_cons] at hargs
      exact Nat.succ.inj hargs
    have hih := ih hcount
    rw [printed_pushVal, List.append_assoc] at hih
    rw [hpieces, pairsBefore_cons, fill]
    simpa using hih
  | case5 logger c text value args hpair hplaceholder ih =>
    have hpieces : pieces (c :: text) = .char c :: pieces text := by
      rw [pieces]
      · exact hpair
      · exact hplaceholder
    have hcount : (value :: args).length = placeholders text := by
      rw [hargs, placeholders, hpieces, List.count_cons_of_ne (by simp)]
      rfl
    have hih := ih hcount
    rw [printed_pushVal, List.append_assoc] at hih
    rw [hpieces, pairsBefore_cons, fill]
    simpa using hih

instance decidablePairsBefore : (ps : List Piece) → Decidable (PairsBefore ps)
  | [] => isTrue fun pre post hps => by simp at hps
  | p :: ps =>
    have := decidablePairsBefore ps
    decidable_of_iff ((p = .pair → .placeholder ∈ ps) ∧ PairsBefore ps) pairsBefore_cons.symm

/-- A pair before the argument. -/
theorem log_prints_pair_first :
    (log id ⟨[]⟩ ['%', '%', ' ', '%'] [['5']]).printed = ['%', ' ', '5'] :=
  (log_prints_iff id ⟨[]⟩ ['%', '%', ' ', '%'] [['5']] rfl).mpr (by decide)

/-- A pair behind it. -/
theorem not_log_prints_pair_last :
    ¬ ∀ (print : List Char → List Char) (logger : Logger) (text : List Char) (args : List (List Char)),
      args.length = placeholders text →
        (logger.log print text args).printed = logger.printed ++ fill print (pieces text) args := by
  intro hall
  have h := hall id ⟨[]⟩ ['%', ' ', '%', '%'] [['5']] rfl
  revert h
  decide

end Logger

end TradingSystem
