
-- A stream is published under an HTTP path. Two paths name the same stream when they agree once the
-- slashes at both ends are removed; what remains is the stream's key. The key of `/`, and of the
-- empty path, is empty: the root. A key is shown with one leading slash.

namespace MediaRelay

def trimSlashes (cs : List Char) : List Char :=
  ((cs.dropWhile (· == '/')).reverse.dropWhile (· == '/')).reverse

structure PathKey where
  text : String
deriving DecidableEq, Inhabited

namespace PathKey

def ofPath (path : String) : PathKey :=
  ⟨String.ofList (trimSlashes path.toList)⟩

def isRoot (k : PathKey) : Bool :=
  k.text.isEmpty

def display (k : PathKey) : String :=
  "/" ++ k.text

instance : Ord PathKey := ⟨fun a b => compare a.text b.text⟩

example : ofPath "//live/a//" = ⟨"live/a"⟩ ∧ (ofPath "/").isRoot = true ∧
    (ofPath "").display = "/" := by
  decide +kernel

end PathKey

end MediaRelay
