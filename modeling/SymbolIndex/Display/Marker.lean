import SymbolIndex.Display.Theme

/-!
# Markers

The signs at the front of output lines: an emoji where the theme has emoji, else a
short tag.
-/

namespace SymbolIndex

inductive Marker where
  | start
  | done
  | failed
  | caution
  | note
  | watching
  | file
  | reindexed
  | part
deriving DecidableEq, Repr

namespace Marker

def all : List Marker :=
  [.start, .done, .failed, .caution, .note, .watching, .file, .reindexed, .part]

def name : Marker -> String
  | start => "Start"
  | done => "Done"
  | failed => "Failed"
  | caution => "Caution"
  | note => "Note"
  | watching => "Watching"
  | file => "File"
  | reindexed => "Reindexed"
  | part => "Part"

def emoji : Marker -> String
  | start => "🚀"
  | done => "✅"
  | failed => "❌"
  | caution => "⚠️"
  | note => "ℹ️"
  | watching => "👀"
  | file => "📄"
  | reindexed => "📝"
  | part => "📦"

def tag : Marker -> String
  | start => "==>"
  | done => "[ok]"
  | failed => "[error]"
  | caution => "[warn]"
  | note => "-"
  | watching => "[watch]"
  | file => "*"
  | reindexed => "~"
  | part => "#"

def glyph (theme : Theme) (m : Marker) : String := if theme.emoji then m.emoji else m.tag

end Marker
end SymbolIndex
