import AksFirmware.CText

/-!
# The page compiler

`proc_tag` of `webcomp_sin.c` copies a page and acts on the tags in it: DEMO and DO_CGI
blocks are dropped, REAL markers are stripped, an OPT block is processed by a call of its own
if its option is defined, and a page with an AOPT tag is given up if that option is not.

The page is scanned in place.  The name of an option is ended with a zero in the page
itself, and the searches for the end of a block run to the end of the page.
-/

namespace AksFirmware.WebComp

open ByteMemory CText

def DOCGI_BEGIN_TAG : Text := ascii "<!--DO_CGI"
def DOCGI_END_TAG : Text := ascii "DO_CGI-->"
def JS_REAL_BEGIN_TAG : Text := ascii "/*REAL"
def JS_REAL_END_TAG : Text := ascii "REAL*/"
def HTML_REAL_BEGIN_TAG : Text := ascii "<!--REAL"
def HTML_REAL_END_TAG : Text := ascii "REAL-->"
def JS_DEMO_BEGIN_TAG : Text := ascii "/*DEMO*/"
def JS_DEMO_END_TAG : Text := ascii "/*END_DEMO*/"
def HTML_DEMO_BEGIN_TAG : Text := ascii "<!--DEMO-->"
def HTML_DEMO_END_TAG : Text := ascii "<!--END_DEMO-->"
def JS_OPTION_BEGIN_TAG : Text := ascii "/*OPT"
def JS_OPTION_TAIL : Text := ascii "*/"
def JS_OPTION_END_TAG : Text := ascii "/*END_OPT*/"
def HTML_OPTION_BEGIN_TAG : Text := ascii "<!--OPT"
def HTML_OPTION_TAIL : Text := ascii "-->"
def HTML_OPTION_END_TAG : Text := ascii "<!--END_OPT-->"
def HTML_PAGE_OPTION_TAG : Text := ascii "<!--AOPT"
def OPT_DEFINE : Text := ascii "#"
def OPT_NOT_DEFINE : Text := ascii "!#"

/-! ### Options -/

/-- What the calls of `fgets(buf, 255, ..)` read: `buf` holds what the next one has so far. -/
def fgetsAll (buf : Text) : List UInt8 → List Text
  | [] => if buf = [] then [] else [buf]
  | c :: file =>
    if c = 0x0a ∨ buf.length + 1 = 254 then (buf ++ [c]) :: fgetsAll [] file
    else fgetsAll (buf ++ [c]) file

/-- `none` is a file that cannot be opened. -/
def option_match (optname : Text) : Option (List UInt8) → Int
  | none => -1
  | some file =>
    if (fgetsAll [] file).any fun buf =>
        strstr (buf.takeWhile (· ≠ 0)) optname && (ascii "#define").isPrefixOf buf
    then 1 else 0

/-! ### Tags -/

/-- What the scanner does at a tag. -/
inductive Action where
  /-- Drop everything up to the end tag. -/
  | block (end_tag : Text)
  /-- Drop the tag. -/
  | marker
  | option (tail end_tag : Text)
  | pageOption (tail : Text)
deriving DecidableEq

/-- The tests of `proc_tag`, in their order. -/
def tests : List (Text × Action) :=
  [(JS_DEMO_BEGIN_TAG, .block JS_DEMO_END_TAG),
    (DOCGI_BEGIN_TAG, .block DOCGI_END_TAG),
    (HTML_DEMO_BEGIN_TAG, .block HTML_DEMO_END_TAG),
    (JS_REAL_BEGIN_TAG, .marker), (JS_REAL_END_TAG, .marker),
    (HTML_REAL_BEGIN_TAG, .marker), (HTML_REAL_END_TAG, .marker),
    (JS_OPTION_BEGIN_TAG, .option JS_OPTION_TAIL JS_OPTION_END_TAG),
    (HTML_OPTION_BEGIN_TAG, .option HTML_OPTION_TAIL HTML_OPTION_END_TAG),
    (HTML_PAGE_OPTION_TAG, .pageOption HTML_OPTION_TAIL)]

/-- The loop that looks for the end of an OPT block, where it is when it is left.  Each turn
moves `next_end` on, so that one turn for each byte of the page is enough. -/
def blockEnd (src : List UInt8) (begin_tag end_tag : Text) : Nat → Nat → Nat → Option Nat
  | 0, _, _ => none
  | turns + 1, next_end, next_opt =>
    match strstrFrom src next_end end_tag with
    | none => none
    | some blk_end =>
      match strstrFrom src next_opt begin_tag with
      | none => some blk_end
      | some opt =>
        if blk_end > opt + begin_tag.length then
          blockEnd src begin_tag end_tag turns (blk_end + end_tag.length) (opt + begin_tag.length)
        else some blk_end

/-- `inverse`, and where the name of the option starts. -/
def optionStart (src : List UInt8) (optn : Nat) : Option (Bool × Nat) :=
  if OPT_NOT_DEFINE.isPrefixOf (src.drop optn) then some (true, optn + OPT_NOT_DEFINE.length)
  else if OPT_DEFINE.isPrefixOf (src.drop optn) then some (false, optn + OPT_DEFINE.length)
  else none

structure OptionTag where
  inverse : Bool
  name : Text
  /-- Where the tail starts, and where it ends. -/
  optb : Nat
  next : Nat

def optionTag (src : List UInt8) (optn : Nat) (tail : Text) : Option OptionTag := do
  let (inverse, optn) ← optionStart src optn
  let optb ← strstrFrom src optn tail
  some ⟨inverse, (src.drop optn).take (optb - optn), optb, optb + tail.length⟩

/-- `option_match(optn, optfile)^inverse` is not zero. -/
def OptionTag.holds (o : OptionTag) (optfile : Option (List UInt8)) : Bool :=
  option_match o.name optfile ≠ if o.inverse then 1 else 0

/-! ### The scanner -/

/-- The page, the place in it, and what was written for it. -/
structure Scan where
  src : List UInt8
  opos : Nat
  out : Text
  nlen : Nat

def Scan.copy (s : Scan) (clen : Nat) : Scan :=
  { s with out := s.out ++ (s.src.drop (s.opos - clen)).take clen, nlen := s.nlen + clen }

@[simp] theorem Scan.copy_zero (s : Scan) : s.copy 0 = s := by
  simp [Scan.copy]

/-- End the name of an option and go on behind it. -/
def Scan.cut (s : Scan) (o : OptionTag) : Scan :=
  { s with src := s.src.set o.optb 0, opos := o.next }

/-- The loop of `proc_tag` up to `oend`, with the call for the body of an option.  There is
no outcome when `fuel` runs out. -/
def scan (optfile : Option (List UInt8)) : Nat → Nat → Nat → Scan → Option (Int × Scan)
  | 0, _, _, _ => none
  | fuel + 1, oend, clen, s =>
    if s.opos < oend then
      match tests.find? fun test => test.1.isPrefixOf (s.src.drop s.opos) with
      | none => scan optfile fuel oend (clen + 1) { s with opos := s.opos + 1 }
      | some (_, .block end_tag) =>
        match strstrFrom s.src s.opos end_tag with
        | none => some (-1, s)
        | some blk_end =>
          scan optfile fuel oend 0 { s.copy clen with opos := blk_end + end_tag.length }
      | some (tag, .marker) =>
        scan optfile fuel oend 0 { s.copy clen with opos := s.opos + tag.length }
      | some (tag, .option tail end_tag) =>
        let optn := s.opos + tag.length
        match blockEnd s.src tag end_tag (s.src.length + 1) optn optn with
        | none => some (-1, s)
        | some blk_end =>
          match optionTag s.src optn tail with
          | none => some (-1, s.copy clen)
          | some o =>
            if o.holds optfile then
              match scan optfile fuel blk_end 0 ((s.copy clen).cut o) with
              | none => none
              | some (rc, s') =>
                if rc < 0 then some (-1, s')
                else scan optfile fuel oend 0 { s' with opos := blk_end + end_tag.length }
            else
              scan optfile fuel oend 0
                { (s.copy clen).cut o with opos := blk_end + end_tag.length }
      | some (tag, .pageOption tail) =>
        match optionTag s.src (s.opos + tag.length) tail with
        | none => some (-1, s.copy clen)
        | some o =>
          if o.holds optfile then scan optfile fuel oend 0 ((s.copy clen).cut o)
          else some (-1, (s.copy clen).cut o)
    else some (0, s.copy clen)

/-- Every turn moves on by a byte at least, and no call goes past both `olen` bytes and the
end of the page. -/
def proc_tag (optfile : Option (List UInt8)) (s : Scan) (olen : Nat) : Option (Int × Scan) :=
  scan optfile (s.src.length + olen + 1) (s.opos + olen) 0 s

/-- The new block and its length, unless the page is given up.  An empty block has no
outcome: the function returns no value then. -/
def proc_fake (optfile : Option (List UInt8)) (inblk : List UInt8) : Option (Option (Text × Nat)) :=
  if inblk = [] then none
  else
    (proc_tag optfile ⟨inblk, 0, [], 0⟩ inblk.length).map fun (rc, s) =>
      if rc < 0 then none else some (s.out, s.nlen)

end AksFirmware.WebComp
