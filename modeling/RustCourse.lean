import RustCourse.Assembly.Acceptance
import RustCourse.Assembly.Composition
import RustCourse.Assembly.Halting
import RustCourse.Assembly.Rejection
import RustCourse.Assembly.Safety
import RustCourse.Assembly.Stage02
import RustCourse.Lesson02.Counters
import RustCourse.Lesson03.Sorting
import RustCourse.Lesson04.PokerHand
import RustCourse.Lesson07.Backpressure
import RustCourse.Lesson07.Draining
import RustCourse.Lesson07.Pacing
import RustCourse.Lesson07.ThreadCount
import RustCourse.Lesson07.Unread
import RustCourse.Lesson08.Cleanup
import RustCourse.Lesson08.Reaping
import RustCourse.Lesson08.Reading
import RustCourse.Lesson08.Shutdown
import RustCourse.Lesson09.Capacity
import RustCourse.Lesson09.Chunking
import RustCourse.Lesson09.Faults
import RustCourse.Lesson09.Readiness
import RustCourse.Lesson09.Registry
import RustCourse.Lesson09.Rejected
import RustCourse.Lesson09.Room
import RustCourse.Lesson10.Capacity
import RustCourse.Lesson10.EndToEnd
import RustCourse.Lesson10.Panics
import RustCourse.Lesson10.Reader
import RustCourse.Lesson10.Transcript
import RustCourse.Lesson10Parallel.Broadcast
import RustCourse.Lesson10Parallel.Capacity
import RustCourse.Lesson10Parallel.Room
import RustCourse.NetworkChat.Calls
import RustCourse.NetworkChat.Counter
import RustCourse.NetworkChat.Poisoning
import RustCourse.NetworkChat.RoundTrip
import RustCourse.Accepting
import RustCourse.Agreement
import RustCourse.Welcome
