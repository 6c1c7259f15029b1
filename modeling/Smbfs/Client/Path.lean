import Mathlib.Data.List.Infix
import Smbfs.Client.Errors
import Smbfs.Lib.GoPath

/-!
Paths of the client: `pathNormalizer`, `validatePath` and the SMB form of a path.
-/

namespace Smbfs.Client

open Smbfs.Lib

/-- `pathNormalizer`. `strings.ToLower` acts on each character; it is
idempotent, keeps the characters that paths treat specially, and maps no other
character to one of them. -/
structure PathNormalizer where
  caseSensitive : Bool
  toLower : Char → Char
  toLower_toLower : ∀ c, toLower (toLower c) = toLower c
  toLower_eq_iff : ∀ c, ∀ s ∈ ['/', '\\', '.', '\x00'], toLower c = s ↔ c = s

/-- `strings.ReplaceAll(p, "\\", "/")`. -/
def slashed (p : Str) : Str := p.map fun c => if c = '\\' then '/' else c

/-- `strings.Contains`. -/
def containsStr (s needle : Str) : Bool := s.tails.any needle.isPrefixOf

/-- `validatePath`: the error, or `none`. -/
def validatePath (p : Str) : Option Err :=
  if p = [] then some (.sentinel .invalidPath)
  else if '\x00' ∈ p then some (.sentinel .invalidPath)
  else
    let cleaned := GoPath.clean (slashed p)
    if ['.', '.'].isPrefixOf cleaned || containsStr cleaned ['/', '.', '.'] then
      some (.sentinel .invalidPath)
    else none

namespace PathNormalizer

variable (pn : PathNormalizer)

def normalize (p : Str) : Str :=
  if p = [] then ['/']
  else
    let p := GoPath.clean (slashed p)
    let p := if p = ['.'] then ['/'] else p
    let p := if GoPath.isRooted p then p else '/' :: p
    if pn.caseSensitive then p else p.map pn.toLower

/-- `join` of two elements. -/
def join (a b : Str) : Str := pn.normalize (GoPath.join a b)

def dir (p : Str) : Str := GoPath.dir (pn.normalize p)

def base (p : Str) : Str := GoPath.base (pn.normalize p)

end PathNormalizer

def toSMBPath (p : Str) : Str :=
  let p := if GoPath.isRooted p then p.tail else p
  p.map fun c => if c = '/' then '\\' else c

def fromSMBPath (p : Str) : Str :=
  let p := slashed p
  GoPath.clean (if GoPath.isRooted p then p else '/' :: p)

end Smbfs.Client
